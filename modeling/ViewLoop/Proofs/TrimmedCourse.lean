import ViewLoop.Proofs.TrimmedDifference
import ViewLoop.Proofs.Upheld

/-!
# Courses of trimmed patches

Patches that lead from a trimmed tree on lead from the live tree on, too, although its elements may
have more attributes: each of them fits, and what is live afterwards is like the tree they lead to,
when it is trimmed and the keys that were removed on the way are left out (`Course.editing`).

Of a key that was removed there may be attributes left. Their number is that of before less one for
the removal (`Editing.exists_before`).
-/

namespace ViewLoop

variable {P : Type}

/-! ### Editing step by step -/

/-- Each of the patches fits the tree that those before it have led to. -/
inductive Editing : Node Unit → List (Patch P) → Node Unit → Prop
  | nil (u : Node Unit) : Editing u [] u
  | cons {u u' : Node Unit} {p : Patch P} {ps : List (Patch P)} (nodup : u.ids.Nodup)
      (fits : p.Fits u) (rest : Editing (p.erased.edit u) ps u') : Editing u (p :: ps) u'

/-- A surface takes what fits. -/
theorem Surface.Shows.take {s : Surface} {u u' : Node Unit} {ps : List (Patch P)}
    (hs : s.Shows u) (h : Editing u ps u') :
    ∃ s', (ps.forM Surface.apply).run s = .ok () s' ∧ s'.Shows u' := by
  induction h generalizing s with
  | nil u => exact ⟨s, rfl, hs⟩
  | cons nodup fits rest ih =>
    obtain ⟨a, r, handle, hrun, hshows⟩ := (apply_decides hs _).accepts fits
    obtain ⟨s', hrest, hlast⟩ := ih hshows
    exact ⟨s', (run_forM_cons_of_ok hrun _).trans hrest, hlast⟩

/-- Trees that are alike when one of them is trimmed have the same identities. -/
theorem Node.Alike.ids_eq_of_trimmed {off : List (NodeId × AttributeKey)} {t : Node P}
    {u : Node Unit} (h : (u.trimmed off).Alike t.erased) : u.ids = t.ids := by
  rw [← Node.ids_trimmed off u, h.ids_eq, Node.erased, Node.ids_map]

/-- A patch that leads on from the trimmed tree leads on from the live one, too. -/
theorem Patch.Leads.trimmed {w : Bool} {off : List (NodeId × AttributeKey)} {p : Patch P}
    {t t' : Node P} {u : Node Unit} (h : p.trimmed.Leads w t t') (ht : t.ids.Nodup)
    (hs : p.Spares off) (halike : (u.trimmed off).Alike t.erased) :
    u.ids.Nodup ∧ p.Fits u ∧ (∀ q ∈ p.removed, q ∉ off)
      ∧ ((p.erased.edit u).trimmed (off ++ p.removed)).Alike t'.erased := by
  have hu : u.ids.Nodup := halike.ids_eq_of_trimmed ▸ ht
  have hfits : p.trimmed.Fits (u.trimmed off) :=
    fits_alike halike.symm ((fits_map _ t p.trimmed).mpr h.fits)
  have hpu : p.Fits u := fits_of_trimmed hs hfits
  refine ⟨hu, hpu, removed_not_mem hfits, ?_⟩
  have hedit := trimmed_edit (p := p.erased) ((spares_map_iff _).mpr hs)
    ((map_reaches_iff _ p u).mpr hpu.reaches) hu
  rw [erased, removed_map, trimmed_map] at hedit
  rw [erased, hedit, ← h.edit_eq ht, Node.erased, edit_map]
  refine edit_alike halike fun n hn _ => ?_
  -- trimmed attributes have distinct keys, whatever the live ones have
  rw [Node.subtrees_trimmed, List.mem_map] at hn
  obtain ⟨m, -, rfl⟩ := hn
  have hkeys : (((m.trimmed off).attributes).map Attribute.key).Nodup := by
    rw [Node.attributes_trimmed]
    exact Attribute.nodup_keys_trim off m.id m.attributes
  cases p with
  | updateAttribute x a b => exact hkeys
  | removeAttribute x a => exact hkeys
  | _ => exact trivial

theorem Course.editing {w : Bool} {off : List (NodeId × AttributeKey)} {ps : List (Patch P)}
    {t t' : Node P} {u : Node Unit} (h : Course w t (ps.map Patch.trimmed) t')
    (ht : (t.marks w).Nodup) (hs : ∀ p ∈ ps, p.Spares (off ++ ps.flatMap Patch.removed))
    (halike : (u.trimmed off).Alike t.erased) (hoff : off.Nodup) :
    ∃ u', Editing u ps u' ∧ (u'.trimmed (off ++ ps.flatMap Patch.removed)).Alike t'.erased
      ∧ (off ++ ps.flatMap Patch.removed).Nodup := by
  induction ps generalizing t u off with
  | nil =>
    cases h
    rw [List.flatMap_nil, List.append_nil]
    exact ⟨u, .nil u, halike, hoff⟩
  | cons p ps ih =>
    rw [List.flatMap_cons, ← List.append_assoc] at hs ⊢
    cases h with
    | cons hp hrest =>
      have hspares := (hs p List.mem_cons_self).mono fun q hq =>
        List.mem_append_left _ (List.mem_append_left _ hq)
      obtain ⟨hu, hfits, hnew, hnext⟩ :=
        hp.trimmed (Node.nodup_ids_of_marks ht) hspares halike
      have hremoved : (off ++ p.removed).Nodup := by
        refine List.nodup_append.mpr ⟨hoff, ?_, fun q hq r hr e => hnew r hr (e ▸ hq)⟩
        rcases p.removed_eq_nil_or with hnone | ⟨x, a, rfl⟩
        · rw [hnone]
          exact List.nodup_nil
        · exact List.nodup_singleton _
      obtain ⟨u', hediting, hlast, hall⟩ := ih hrest (hp.nodup_marks ht)
        (fun q hq => hs q (List.mem_cons_of_mem _ hq)) hnext hremoved
      exact ⟨u', .cons hu hfits hediting, hlast, hall⟩

/-! ### Counting attributes -/

namespace Attribute

variable {a new : Attribute P} {as : List (Attribute P)} {k l : AttributeKey}

theorem map_key_put (h : new.key = k) (as : List (Attribute P)) :
    (put k new as).map key = as.map key := by
  induction as with
  | nil => rfl
  | cons a as ih =>
    rw [put_cons]
    split
    · rename_i ha
      rw [List.map_cons, List.map_cons, h, ha]
    · rw [List.map_cons, List.map_cons, ih]

theorem map_key_drop (k : AttributeKey) (as : List (Attribute P)) :
    (drop k as).map key = (as.map key).erase k := by
  induction as with
  | nil => rfl
  | cons a as ih =>
    rw [drop_cons, List.map_cons, List.erase_cons]
    by_cases ha : a.key = k
    · rw [if_pos ha, if_pos (beq_iff_eq.mpr ha)]
    · rw [if_neg ha, if_neg (by simpa using ha), List.map_cons, ih]

end Attribute

namespace Node

variable {n m t : Node P} {x : NodeId}

/-- How many attributes of a key an element has. -/
def keyCount (k : AttributeKey) (n : Node P) : Nat := (n.attributes.map Attribute.key).count k

theorem keyCount_eq_of_attributes_eq {k : AttributeKey} (h : n.attributes = m.attributes) :
    n.keyCount k = m.keyCount k := by
  rw [keyCount, keyCount, h]

/-- A node of a changed tree is part of what the change made, or is a node that was there before
with the same attributes. -/
theorem mem_subtrees_modify {f : Node P → Node P} (h : m ∈ (t.modify x f).subtrees) :
    (∃ n ∈ t.subtrees, n.id = x ∧ m ∈ (f n).subtrees)
      ∨ ∃ n ∈ t.subtrees, n.id ≠ x ∧ n.id = m.id ∧ n.attributes = m.attributes := by
  induction t with
  | element i tag as cs ih =>
    by_cases hi : i = x
    · rw [modify, if_pos hi] at h
      exact Or.inl ⟨_, self_mem_subtrees _, hi, h⟩
    · rw [modify_element_of_ne hi, subtrees_element, List.mem_cons] at h
      rcases h with rfl | h
      · exact Or.inr ⟨_, self_mem_subtrees _, hi, rfl, rfl⟩
      · obtain ⟨d, hd, hm⟩ := List.mem_flatMap.mp h
        obtain ⟨c, hc, rfl⟩ := List.mem_map.mp hd
        rcases ih c hc hm with ⟨n, hn, hid, hmn⟩ | ⟨n, hn, hne, hid, has⟩
        · exact Or.inl ⟨n, mem_subtrees_of_mem hc hn, hid, hmn⟩
        · exact Or.inr ⟨n, mem_subtrees_of_mem hc hn, hne, hid, has⟩
  | text i s =>
    by_cases hi : i = x
    · rw [modify, if_pos hi] at h
      exact Or.inl ⟨_, self_mem_subtrees _, hi, h⟩
    · rw [modify, if_neg hi] at h
      obtain rfl := List.mem_singleton.mp h
      exact Or.inr ⟨_, self_mem_subtrees _, hi, rfl, rfl⟩

end Node

namespace Patch

variable {p : Patch P} {n m t : Node P} {k : AttributeKey}

theorem mem_children_of_mem_act {c : Node P} (h : c ∈ (p.act n).children) :
    c ∈ n.children ∨ c ∈ p.entering := by
  cases n with
  | text i s => cases p <;> exact absurd h List.not_mem_nil
  | element i tag as cs =>
    cases p with
    | addChild x j d =>
      exact (List.eq_or_mem_of_mem_insertIdx h).elim (fun e => Or.inr (congrArg some e.symm)) Or.inl
    | addText x j d =>
      exact (List.eq_or_mem_of_mem_insertIdx h).elim (fun e => Or.inr (congrArg some e.symm)) Or.inl
    | removeChild x d => exact Or.inl (List.mem_filter.mp h).1
    | removeText x y => exact Or.inl (List.mem_filter.mp h).1
    | replaceChild x old new =>
      obtain ⟨d, hd, rfl⟩ := List.mem_map.mp h
      split
      · exact Or.inr rfl
      · exact Or.inl hd
    | reorderChildren x order =>
      obtain ⟨y, -, hy⟩ := List.mem_filterMap.mp h
      exact Or.inl (List.mem_of_find?_eq_some hy)
    | _ => exact Or.inl h

/-- Only a removal changes the number of attributes of a key that the patch spares otherwise. -/
theorem keyCount_act (hs : p.Spares [(n.id, k)]) (hp : p.target = some n.id)
    (hallowed : p.Allowed n) :
    n.keyCount k = (p.act n).keyCount k + p.removed.count (n.id, k) := by
  cases n with
  | text i s =>
    cases p with
    | removeAttribute x a => exact absurd hallowed List.not_mem_nil
    | _ => rfl
  | element i tag as cs =>
    cases p with
    | updateAttribute x old new =>
      have hkeys : (Attribute.put old.key new as).map Attribute.key = as.map Attribute.key :=
        Attribute.map_key_put hs.1 as
      exact (congrArg (List.count k) hkeys).symm
    | addAttribute x a =>
      obtain rfl : x = i := Option.some.inj hp
      have hne : a.key ≠ k := fun e => hs (e ▸ List.mem_singleton_self _)
      have hkeys : (as ++ [a]).map Attribute.key = as.map Attribute.key ++ [a.key] := by simp
      have hcount : ((as ++ [a]).map Attribute.key).count k = (as.map Attribute.key).count k := by
        rw [hkeys, List.count_append, List.count_singleton, if_neg (by simpa using hne),
          Nat.add_zero]
      exact hcount.symm
    | removeAttribute x a =>
      obtain rfl : x = i := Option.some.inj hp
      have hcount : ((Attribute.drop a.key as).map Attribute.key).count k
          = ((as.map Attribute.key).erase a.key).count k := by rw [Attribute.map_key_drop]
      have hmem : a.key ∈ as.map Attribute.key := hallowed
      show (as.map Attribute.key).count k
        = ((Attribute.drop a.key as).map Attribute.key).count k + [(x, a.key)].count (x, k)
      rw [hcount]
      by_cases hk : a.key = k
      · subst hk
        have hpos := List.count_pos_iff.mpr hmem
        rw [List.count_erase_self, List.count_singleton_self]
        omega
      · rw [List.count_erase_of_ne (Ne.symm hk), List.count_singleton, if_neg (by simpa using hk),
          Nat.add_zero]
    | _ => rfl

theorem target_of_mem_removed {q : NodeId × AttributeKey} (h : q ∈ p.removed) :
    p.target = some q.1 := by
  obtain ⟨a, rfl, -⟩ := mem_removed_iff.mp h
  rfl

/-- A node that a patch did not bring in was there before, with an attribute more of the key that
was removed from it. -/
theorem exists_before (ht : t.ids.Nodup) (hp : p.Reaches t) (hs : p.Spares [(m.id, k)])
    (hm : m ∈ (p.edit t).subtrees) :
    ∃ n ∈ t.subtrees, n.id = m.id ∧ n.keyCount k = m.keyCount k + p.removed.count (m.id, k) := by
  have hentering : ∀ c ∈ p.entering, m.id ∉ c.ids := by
    intro c hc
    cases p with
    | addChild x i d =>
      obtain rfl := Option.some.inj hc
      exact hs _ (List.mem_singleton_self _)
    | addText x i d =>
      obtain rfl := Option.some.inj hc
      exact hs _ (List.mem_singleton_self _)
    | replaceChild x old new =>
      obtain rfl := Option.some.inj hc
      exact hs _ (List.mem_singleton_self _)
    | _ => exact nomatch hc
  have helsewhere : ∀ n : Node P, n.id = m.id → p.target ≠ some m.id →
      n.attributes = m.attributes →
        n.id = m.id ∧ n.keyCount k = m.keyCount k + p.removed.count (m.id, k) := by
    intro n hid hne has
    have hnone : p.removed.count (m.id, k) = 0 :=
      List.count_eq_zero.mpr fun hmem => hne (target_of_mem_removed hmem)
    exact ⟨hid, by rw [Node.keyCount_eq_of_attributes_eq has, hnone, Nat.add_zero]⟩
  cases hx : p.target with
  | some x =>
    rw [edit_of_target hx] at hm
    rw [Reaches, hx] at hp
    rw [hx] at helsewhere
    obtain ⟨o, ho, rfl, hallowed⟩ := hp
    rcases Node.mem_subtrees_modify hm with ⟨n, hn, hid, hmn⟩ | ⟨n, hn, hne, hid, has⟩
    · obtain rfl := Node.eq_of_id_eq ht hn ho hid
      rcases Node.mem_subtrees_iff.mp hmn with rfl | ⟨c, hc, hmc⟩
      · rw [id_act] at hs ⊢
        exact ⟨n, hn, rfl, keyCount_act hs hx hallowed⟩
      · rcases mem_children_of_mem_act hc with hc | hc
        · have hmem := Node.mem_subtrees_trans (Node.mem_subtrees_of_mem_children hn hc) hmc
          have hne : n.id ≠ m.id := fun e =>
            Node.id_not_mem_of_child (Node.nodup_ids_of_mem ht hn) hc
              (e ▸ Node.mem_ids_iff.mpr ⟨m, hmc, rfl⟩)
          exact ⟨m, hmem, helsewhere m rfl (fun e => hne (Option.some.inj e)) rfl⟩
        · exact absurd (Node.mem_ids_iff.mpr ⟨m, hmc, rfl⟩) (hentering c hc)
    · exact ⟨n, hn, helsewhere n hid (fun e => hne (hid.trans (Option.some.inj e).symm)) has⟩
  | none =>
    cases p with
    | replaceChild parent old new =>
      obtain rfl : parent = none := hx
      exact absurd (Node.mem_ids_iff.mpr ⟨m, hm, rfl⟩) (hentering new rfl)
    | _ => exact nomatch hx

end Patch

theorem Editing.exists_before {u u' m : Node Unit} {ps : List (Patch P)} {k : AttributeKey}
    (h : Editing u ps u') (hs : ∀ p ∈ ps, p.Spares [(m.id, k)]) (hm : m ∈ u'.subtrees) :
    ∃ n ∈ u.subtrees, n.id = m.id
      ∧ n.keyCount k = m.keyCount k + (ps.flatMap Patch.removed).count (m.id, k) := by
  induction h with
  | nil u => exact ⟨m, hm, rfl, rfl⟩
  | @cons u u' p ps nodup fits rest ih =>
    obtain ⟨n, hn, hid, hcount⟩ := ih (fun q hq => hs q (List.mem_cons_of_mem _ hq)) hm
    have hspares : p.erased.Spares [(n.id, k)] := by
      rw [hid]
      exact (Patch.spares_map_iff _).mpr (hs p List.mem_cons_self)
    obtain ⟨o, ho, hido, hcounto⟩ := Patch.exists_before nodup
      ((Patch.map_reaches_iff _ p u).mpr fits.reaches) hspares hn
    rw [hid, Patch.removed_map] at hcounto
    refine ⟨o, ho, hido.trans hid, ?_⟩
    rw [hcounto, hcount, List.flatMap_cons, List.count_append]
    omega

end ViewLoop
