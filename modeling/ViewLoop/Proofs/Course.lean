import ViewLoop.Proofs.Labels
import ViewLoop.Proofs.Marks

/-!
# Courses of patches

A patch leads from one tree to another if it suits the node that it changes and touches no mark
outside of it. A `Course` is a list of patches each of which leads on from where the one before it
led. What a course does to a tree it does to every larger tree whose other marks it does not touch
(`Course.under`), so courses are put together from courses for parts.

The patches of a course fit the trees that they meet (`Leads.fits`), and marks that do not repeat
at its start do not repeat later (`Leads.nodup_marks`).
-/

namespace ViewLoop

variable {P : Type} {w : Bool}

/-! ### What a patch touches -/

def Mark.isHandler : Mark → Bool
  | node _ => false
  | handler _ => true

def Node.handlerMarks (watched : Bool) (n : Node P) : List Mark :=
  (n.marks watched).filter Mark.isHandler

theorem Node.mem_handlerMarks_iff {n : Node P} {x : Mark} :
    x ∈ n.handlerMarks w ↔ x ∈ n.marks w ∧ x.isHandler = true := List.mem_filter

namespace Patch

/-- The marks of what a patch brings in, and of the handlers of what it takes away. -/
def touches (watched : Bool) : Patch P → List Mark
  | addChild _ _ c => c.marks watched
  | removeChild _ c => c.handlerMarks watched
  | replaceChild _ old new => old.handlerMarks watched ++ new.marks watched
  | reorderChildren _ _ => []
  | updateAttribute _ old new => old.marks watched ++ new.marks watched
  | addAttribute _ a => a.marks watched
  | removeAttribute _ a => a.marks watched
  | updateText _ _ => []
  | addText _ _ c => c.marks watched
  | removeText _ _ => []

/-- A tree may come in below `n`. -/
structure Enters (watched : Bool) (c n : Node P) : Prop where
  nodup : (c.marks watched).Nodup
  assigned : ∀ x ∈ c.ids, x.isAssigned = true
  labelled : c.Labelled
  apart : ∀ x ∈ c.marks watched, x ∉ n.marks watched

/-- A tree may come in below `n` in the place of `m`, which was `old` once. -/
structure Succeeds (watched : Bool) (c old m n : Node P) : Prop where
  nodup : (c.marks watched).Nodup
  assigned : ∀ x ∈ c.ids, x.isAssigned = true
  labelled : c.Labelled
  apart : ∀ x ∈ c.marks watched, x ∈ n.marks watched → x ∈ m.marks watched
  leaves : ∀ x ∈ m.handlerMarks watched, x ∈ old.handlerMarks watched
  spares : ∀ x ∈ old.handlerMarks watched, x ∈ n.marks watched → x ∈ m.marks watched

/-- What must hold of the node that a patch changes, so that the patch does what it is meant to. -/
def Suits (watched : Bool) (n : Node P) : Patch P → Prop
  | addChild _ i c =>
    c.isText = false ∧ n.isText = false ∧ i ≤ n.children.length ∧ Enters watched c n
  | removeChild _ c => c ∈ n.children ∧ c.isText = false
  | replaceChild _ old new => ∃ m ∈ n.children, m.id = old.id ∧ Succeeds watched new old m n
  | reorderChildren _ order => n.isText = false ∧ order.Perm (n.children.map Node.id)
  | updateAttribute _ old new =>
    (n.attributes.map Attribute.key).Nodup ∧ old ∈ n.attributes ∧ new.key = old.key
      ∧ ∀ x ∈ new.marks watched, x ∈ n.marks watched → x ∈ old.marks watched
  | addAttribute _ a =>
    n.isText = false ∧ a.key ∉ n.attributes.map Attribute.key
      ∧ ∀ x ∈ a.marks watched, x ∉ n.marks watched
  | removeAttribute _ a => (n.attributes.map Attribute.key).Nodup ∧ a ∈ n.attributes
  | updateText _ _ => n.isText = true
  | addText _ i c =>
    c.isText = true ∧ n.isText = false ∧ i ≤ n.children.length ∧ Enters watched c n
  | removeText _ y => ∃ c ∈ n.children, c.id = y ∧ c.isText = true

/-- The patch changes a node that it suits, and touches no mark around it. -/
inductive Leads (watched : Bool) (p : Patch P) : Node P → Node P → Prop
  | intro (C : Context P) (n : Node P) (target : p.target = some n.id) (suits : p.Suits watched n)
      (clear : ∀ x ∈ p.touches watched, x ∉ C.marks watched) :
      Leads watched p (C.plug n) (C.plug (p.act n))

end Patch

/-- A list of patches each of which leads on from where the one before it led. -/
inductive Course (watched : Bool) : Node P → List (Patch P) → Node P → Prop
  | nil (t : Node P) : Course watched t [] t
  | cons {t t' t'' : Node P} {p : Patch P} {ps : List (Patch P)} (h : p.Leads watched t t')
      (rest : Course watched t' ps t'') : Course watched t (p :: ps) t''

/-! ### Putting courses together -/

theorem Course.append {t t' t'' : Node P} {ps qs : List (Patch P)} (h : Course w t ps t')
    (h' : Course w t' qs t'') : Course w t (ps ++ qs) t'' := by
  induction h with
  | nil => exact h'
  | cons hp _ ih => exact .cons hp (ih h')

theorem Course.single {n : Node P} {p : Patch P} (target : p.target = some n.id)
    (suits : p.Suits w n) : Course w n [p] (p.act n) :=
  .cons (.intro .hole n target suits fun _ _ => List.not_mem_nil) (.nil _)

/-- The marks beside a child: of its parent, without what is below, and of its siblings. -/
def beside (watched : Bool) (i : NodeId) (as : List (Attribute P)) (before after : List (Node P)) :
    List Mark :=
  .node i :: (as.flatMap (Attribute.marks watched)
    ++ (before.flatMap (Node.marks watched) ++ after.flatMap (Node.marks watched)))

theorem Patch.Leads.under {b b' : Node P} {p : Patch P} (h : p.Leads w b b') {i : NodeId}
    {tag : String} {as : List (Attribute P)} {before after : List (Node P)}
    (hclear : ∀ x ∈ p.touches w, x ∉ beside w i as before after) :
    p.Leads w (.element i tag as (before ++ b :: after))
      (.element i tag as (before ++ b' :: after)) := by
  cases h with
  | intro C n target suits clear =>
    refine .intro (.under i tag as before C after) n target suits fun x hx hxC => ?_
    have hb := hclear x hx
    have hc := clear x hx
    simp only [Context.marks, beside, List.mem_cons, List.mem_append, not_or] at hxC hb
    obtain ⟨h1, h2, h3, h4⟩ := hb
    rcases hxC with h | h | ((h | h) | h)
    · exact h1 h
    · exact h2 h
    · exact h3 h
    · exact hc h
    · exact h4 h

theorem Course.under {b b' : Node P} {ps : List (Patch P)} (h : Course w b ps b') {i : NodeId}
    {tag : String} {as : List (Attribute P)} {before after : List (Node P)}
    (hclear : ∀ p ∈ ps, ∀ x ∈ p.touches w, x ∉ beside w i as before after) :
    Course w (.element i tag as (before ++ b :: after)) ps
      (.element i tag as (before ++ b' :: after)) := by
  induction h with
  | nil => exact .nil _
  | cons hp _ ih =>
    refine .cons (hp.under (hclear _ List.mem_cons_self)) (ih fun p hm => ?_)
    exact hclear p (List.mem_cons_of_mem _ hm)

theorem Course.map_update {α : Type} [DecidableEq α] {i : NodeId} {tag : String}
    {as : List (Attribute P)} {items : List α} {key : α → NodeId} {f : α → Node P} {q : α}
    {b : Node P} {ps : List (Patch P)} (hf : ∀ r ∈ items, (f r).id = key r)
    (hkey : (items.map key).Nodup) (hq : q ∈ items)
    (hstep : ∀ before after : List (Node P), ((before ++ f q :: after).map Node.id).Nodup →
      (∀ m ∈ before ++ after, ∃ r ∈ items, r ≠ q ∧ m = f r) →
      Course w (.element i tag as (before ++ f q :: after)) ps
        (.element i tag as (before ++ b :: after))) :
    Course w (.element i tag as (items.map f)) ps
      (.element i tag as (items.map (Function.update f q b))) := by
  obtain ⟨pre, post, rfl⟩ := List.append_of_mem hq
  have hnd := (List.perm_middle.nodup_iff.mp (List.Nodup.of_map _ hkey))
  have hneq : ∀ r ∈ pre ++ post, r ≠ q := fun r hr e => (List.nodup_cons.mp hnd).1 (e ▸ hr)
  have hstay : ∀ l ⊆ pre ++ post, l.map (Function.update f q b) = l.map f := fun l hl =>
    List.map_congr_left fun r hr => Function.update_of_ne (hneq r (hl hr)) b f
  rw [List.map_append, List.map_append, List.map_cons, List.map_cons, Function.update_self,
    hstay pre (List.subset_append_left _ _), hstay post (List.subset_append_right _ _)]
  refine hstep _ _ ?_ fun m hm => ?_
  · have hids : (pre ++ q :: post).map (Node.id ∘ f) = (pre ++ q :: post).map key :=
      List.map_congr_left fun r hr => hf r hr
    rw [← List.map_cons, ← List.map_append, List.map_map, hids]
    exact hkey
  · rw [← List.map_append] at hm
    obtain ⟨r, hr, rfl⟩ := List.mem_map.mp hm
    exact ⟨r, List.perm_middle.mem_iff.mpr (List.mem_cons_of_mem _ hr), hneq r hr, rfl⟩

/-- Children are changed one after another, in any order. Whatever `h` makes of a child, it is
what the course of that child makes of it, or what the child was if it has none. -/
theorem Course.forest {α : Type} {i : NodeId} {tag : String} {as : List (Attribute P)}
    {items order : List α} {key : α → NodeId} {f g h : α → Node P} {ps : α → List (Patch P)}
    (hf : ∀ r ∈ items, (f r).id = key r) (hg : ∀ r ∈ items, (g r).id = key r)
    (hkey : (items.map key).Nodup) (hn : order.Nodup) (hsub : order ⊆ items)
    (hstep : ∀ q ∈ order, ∀ before after : List (Node P),
      ((before ++ f q :: after).map Node.id).Nodup →
      (∀ m ∈ before ++ after, ∃ r ∈ items, r ≠ q ∧ (m = f r ∨ m = g r)) →
      Course w (.element i tag as (before ++ f q :: after)) (ps q)
        (.element i tag as (before ++ g q :: after)))
    (hdone : ∀ r ∈ order, h r = g r) (hrest : ∀ r ∈ items, r ∉ order → h r = f r) :
    Course w (.element i tag as (items.map f)) (order.flatMap ps)
      (.element i tag as (items.map h)) := by
  classical
  -- The children that were changed already are part of `f`, which is why `f` is generalised: after
  -- a step it is `g` at one more place.
  induction order generalizing f with
  | nil =>
    have hfh : items.map h = items.map f :=
      List.map_congr_left fun r hr => hrest r hr List.not_mem_nil
    rw [hfh]
    exact .nil _
  | cons q order ih =>
    obtain ⟨hq, hn⟩ := List.nodup_cons.mp hn
    have hqi : q ∈ items := hsub List.mem_cons_self
    have hfirst : Course w (.element i tag as (items.map f)) (ps q)
        (.element i tag as (items.map (Function.update f q (g q)))) := by
      refine Course.map_update hf hkey hqi fun before after hnd hothers => ?_
      refine hstep q List.mem_cons_self before after hnd fun m hm => ?_
      obtain ⟨r, hr, hrq, hmr⟩ := hothers m hm
      exact ⟨r, hr, hrq, Or.inl hmr⟩
    have hor : ∀ r, Function.update f q (g q) r = f r ∨ Function.update f q (g q) r = g r := by
      intro r
      by_cases hr : r = q
      · subst hr
        exact Or.inr (Function.update_self r (g r) f)
      · exact Or.inl (Function.update_of_ne hr (g q) f)
    rw [List.flatMap_cons]
    refine hfirst.append (ih ?_ hn (fun r hr => hsub (List.mem_cons_of_mem _ hr)) ?_ ?_ ?_)
    · intro r hr
      rcases hor r with h | h
      · exact h ▸ hf r hr
      · exact h ▸ hg r hr
    · intro q' hq' before after hnd hothers
      have hne : q' ≠ q := fun e => hq (e ▸ hq')
      rw [Function.update_of_ne hne] at hnd ⊢
      refine hstep q' (List.mem_cons_of_mem _ hq') before after hnd fun m hm => ?_
      obtain ⟨r, hr, hrq, hm⟩ := hothers m hm
      refine ⟨r, hr, hrq, ?_⟩
      rcases hm with hm | hm
      · exact (hor r).imp hm.trans hm.trans
      · exact Or.inr hm
    · exact fun r hr => hdone r (List.mem_cons_of_mem _ hr)
    · intro r hr hro
      by_cases hrq : r = q
      · subst hrq
        rw [hdone r List.mem_cons_self, Function.update_self]
      · rw [Function.update_of_ne hrq]
        exact hrest r hr fun hm => (List.mem_cons.mp hm).elim hrq hro

/-! ### What a patch does to marks -/

theorem Attribute.nodup_marks (a : Attribute P) : (a.marks w).Nodup := by
  cases a <;> cases w <;> simp [Attribute.marks, Attribute.handler?]

namespace Node

theorem marks_child_perm (i : NodeId) (tag : String) (as : List (Attribute P))
    (before after : List (Node P)) (c : Node P) :
    ((element i tag as (before ++ c :: after)).marks w).Perm
      (c.marks w ++ (element i tag as (before ++ after)).marks w) := by
  rw [List.perm_iff_count]
  intro x
  simp only [marks_element, List.flatMap_append, List.flatMap_cons, List.count_cons,
    List.count_append]
  omega

theorem marks_attribute_perm (i : NodeId) (tag : String) (before after : List (Attribute P))
    (a : Attribute P) (cs : List (Node P)) :
    ((element i tag (before ++ a :: after) cs).marks w).Perm
      (a.marks w ++ (element i tag (before ++ after) cs).marks w) := by
  rw [List.perm_iff_count]
  intro x
  simp only [marks_element, List.flatMap_append, List.flatMap_cons, List.count_cons,
    List.count_append]
  omega

theorem marks_children_perm (i : NodeId) (tag : String) (as : List (Attribute P))
    {cs ds : List (Node P)} (h : cs.Perm ds) :
    ((element i tag as cs).marks w).Perm ((element i tag as ds).marks w) := by
  rw [marks_element, marks_element]
  exact ((h.flatMap_right _).append_left _).cons _

theorem nodup_children_of_marks {i : NodeId} {tag : String} {as : List (Attribute P)}
    {cs : List (Node P)} (h : ((element i tag as cs).marks w).Nodup) : (cs.map id).Nodup := by
  have hi := nodup_ids_of_marks h
  rw [ids_element] at hi
  exact (List.nodup_cons.mp hi).2.sublist (map_id_sublist cs)

theorem marks_insertChild_perm {n c : Node P} {i : Nat} (ht : n.isText = false)
    (hi : i ≤ n.children.length) :
    ((n.withChildren (·.insertIdx i c)).marks w).Perm (c.marks w ++ n.marks w) := by
  cases n with
  | text j u => exact absurd ht (by simp [isText])
  | element j tag as cs =>
    have hp := marks_children_perm (w := w) j tag as (List.perm_insertIdx c cs hi)
    exact hp.trans (marks_child_perm j tag as [] cs c)

theorem marks_removeChild_perm {n c : Node P} (hn : (n.marks w).Nodup) (hc : c ∈ n.children) :
    (n.marks w).Perm (c.marks w ++ (n.withChildren (·.filter fun d => d.id ≠ c.id)).marks w) := by
  cases n with
  | text j u => exact absurd hc List.not_mem_nil
  | element j tag as cs =>
    obtain ⟨before, after, rfl⟩ := List.append_of_mem hc
    rw [withChildren, filter_id_ne (nodup_children_of_marks hn)]
    exact marks_child_perm j tag as before after c

end Node

namespace Patch

variable {n : Node P} {p : Patch P}

/-- One node trades some of its marks for some of those touched, and so becomes another. -/
def Trades (watched : Bool) (touched : List Mark) (n n' : Node P) : Prop :=
  ∃ out inn rest, (n.marks watched).Perm (out ++ rest) ∧ (n'.marks watched).Perm (inn ++ rest)
    ∧ inn.Nodup ∧ (∀ x ∈ inn, x ∈ touched) ∧ ∀ x ∈ inn, x ∉ rest

theorem Trades.of_out {n' : Node P} {touched o : List Mark}
    (h : (n.marks w).Perm (o ++ n'.marks w)) : Trades w touched n n' :=
  ⟨o, [], n'.marks w, h, .refl _, List.nodup_nil, fun _ hx => absurd hx List.not_mem_nil,
    fun _ hx => absurd hx List.not_mem_nil⟩

theorem Trades.of_in {n' : Node P} {touched inn : List Mark}
    (h : (n'.marks w).Perm (inn ++ n.marks w)) (hinn : inn.Nodup) (htouched : inn ⊆ touched)
    (hapart : ∀ x ∈ inn, x ∉ n.marks w) : Trades w touched n n' :=
  ⟨[], inn, n.marks w, .refl _, h, hinn, fun _ hx => htouched hx, hapart⟩

/-- What comes in has no mark in common with what stays, as what goes out has all that it shares
with the node. -/
theorem Trades.of_exchange {n' : Node P} {touched o inn rest : List Mark}
    (hn : (n.marks w).Nodup) (hold : (n.marks w).Perm (o ++ rest))
    (hnew : (n'.marks w).Perm (inn ++ rest)) (hinn : inn.Nodup) (htouched : inn ⊆ touched)
    (h : ∀ x ∈ inn, x ∈ n.marks w → x ∈ o) : Trades w touched n n' := by
  refine ⟨o, inn, rest, hold, hnew, hinn, fun _ hx => htouched hx, fun x hx hr => ?_⟩
  have hxn : x ∈ n.marks w := hold.mem_iff.mpr (List.mem_append_right _ hr)
  exact List.disjoint_of_nodup_append (hold.nodup_iff.mp hn) (h x hx hxn) hr

/-- The only thing to change about a text is the text. -/
theorem Suits.exists_updateText {i : NodeId} {u : String} (h : p.Suits w (.text i u)) :
    ∃ x v, p = updateText x v := by
  cases p with
  | updateText x v => exact ⟨x, v, rfl⟩
  | addChild x j c => exact absurd h.2.1 (by simp [Node.isText])
  | addText x j c => exact absurd h.2.1 (by simp [Node.isText])
  | removeChild x c => exact absurd h.1 List.not_mem_nil
  | removeText x y =>
    obtain ⟨c, hc, -⟩ := h
    exact absurd hc List.not_mem_nil
  | replaceChild x old new =>
    obtain ⟨m, hm, -⟩ := h
    exact absurd hm List.not_mem_nil
  | reorderChildren x order => exact absurd h.1 (by simp [Node.isText])
  | updateAttribute x old new => exact absurd h.2.1 List.not_mem_nil
  | addAttribute x a => exact absurd h.1 (by simp [Node.isText])
  | removeAttribute x a => exact absurd h.2 List.not_mem_nil

theorem trades_act (hn : (n.marks w).Nodup) (hs : p.Suits w n) :
    Trades w (p.touches w) n (p.act n) := by
  cases n with
  | text j u =>
    obtain ⟨x, v, rfl⟩ := hs.exists_updateText
    exact .of_out (o := []) (.refl _)
  | element j tag as cs =>
    cases p with
    | addChild x i c =>
      obtain ⟨-, ht, hi, hc⟩ := hs
      exact .of_in (Node.marks_insertChild_perm ht hi) hc.nodup (List.Subset.refl _) hc.apart
    | addText x i c =>
      obtain ⟨-, ht, hi, hc⟩ := hs
      exact .of_in (Node.marks_insertChild_perm ht hi) hc.nodup (List.Subset.refl _) hc.apart
    | removeChild x c =>
      exact .of_out (Node.marks_removeChild_perm hn hs.1)
    | removeText x y =>
      obtain ⟨c, hc, rfl, -⟩ := hs
      exact .of_out (Node.marks_removeChild_perm hn hc)
    | replaceChild x old new =>
      obtain ⟨m, hm, hid, h⟩ := hs
      obtain ⟨before, after, rfl⟩ := List.append_of_mem hm
      refine .of_exchange hn (Node.marks_child_perm j tag as before after m) ?_ h.nodup
        (List.subset_append_right _ _) h.apart
      rw [act, Node.withChildren, ← hid, Node.map_replace_eq (Node.nodup_children_of_marks hn)]
      exact Node.marks_child_perm j tag as before after new
    | reorderChildren x order =>
      have hnd := Node.nodup_children_of_marks hn
      have hperm := (map_id_find?_of_perm hs.2 hnd).2
      exact .of_out (o := []) (Node.marks_children_perm j tag as hperm).symm
    | updateAttribute x old new =>
      obtain ⟨hk, hold, -, h⟩ := hs
      obtain ⟨before, after, rfl⟩ := List.append_of_mem hold
      refine .of_exchange hn (Node.marks_attribute_perm j tag before after old cs) ?_
        new.nodup_marks (List.subset_append_right _ _) h
      rw [act, Node.withAttributes, Attribute.put_middle hk]
      exact Node.marks_attribute_perm j tag before after new cs
    | addAttribute x a =>
      refine .of_in ?_ a.nodup_marks (List.Subset.refl _) hs.2.2
      have hperm := Node.marks_attribute_perm (w := w) j tag as [] a cs
      rwa [List.append_nil] at hperm
    | removeAttribute x a =>
      obtain ⟨hk, ha⟩ := hs
      obtain ⟨before, after, rfl⟩ := List.append_of_mem ha
      refine .of_out (o := a.marks w) ?_
      rw [act, Node.withAttributes, Attribute.drop_middle hk]
      exact Node.marks_attribute_perm j tag before after a cs
    | updateText x u => exact .of_out (o := []) (.refl _)

theorem Leads.nodup_marks {t t' : Node P} (h : p.Leads w t t') (ht : (t.marks w).Nodup) :
    (t'.marks w).Nodup := by
  cases h with
  | intro C n target suits clear =>
    have hplug := (C.marks_plug n).nodup_iff.mp ht
    obtain ⟨out, inn, rest, hold, hnew, hinn, htouch, hrest⟩ := trades_act hplug.of_append_left suits
    have hr : rest.Nodup := ((hold.nodup_iff.mp hplug.of_append_left)).of_append_right
    refine (C.marks_plug _).nodup_iff.mpr (List.nodup_append.mpr ⟨?_, hplug.of_append_right, ?_⟩)
    · refine hnew.nodup_iff.mpr (List.nodup_append.mpr ⟨hinn, hr, fun x hx y hy hxy => ?_⟩)
      exact hrest x hx (hxy ▸ hy)
    · intro x hx y hy hxy
      subst hxy
      rcases List.mem_append.mp (hnew.mem_iff.mp hx) with hx | hx
      · exact clear x (htouch x hx) hy
      · have hxn := hold.mem_iff.mpr (List.mem_append_right _ hx)
        exact List.disjoint_of_nodup_append hplug hxn hy

/-! ### Patches of a course fit -/

theorem Suits.allowed (h : p.Suits w n) : p.Allowed n := by
  cases p with
  | addChild x i c => exact ⟨h.1, h.2.1, h.2.2.1⟩
  | addText x i c => exact ⟨h.1, h.2.1, h.2.2.1⟩
  | removeChild x c => exact ⟨c, h.1, rfl, h.2⟩
  | removeText x y => exact h
  | replaceChild x old new =>
    obtain ⟨m, hm, hid, -⟩ := h
    exact ⟨m, hm, hid⟩
  | reorderChildren x order => exact h
  | updateAttribute x old new => exact List.mem_map_of_mem h.2.1
  | addAttribute x a => exact ⟨h.1, h.2.1⟩
  | removeAttribute x a => exact List.mem_map_of_mem h.2
  | updateText x u => exact h

theorem Suits.keysApart (h : p.Suits w n) : p.KeysApart n := by
  cases p with
  | updateAttribute x old new => exact h.1
  | removeAttribute x a => exact h.1
  | _ => exact trivial

theorem Suits.entering (h : p.Suits w n) {c : Node P} (hc : c ∈ p.entering) :
    (c.marks w).Nodup ∧ (∀ x ∈ c.ids, x.isAssigned = true)
      ∧ (∀ x ∈ c.marks w, x ∈ p.touches w)
      ∧ ∀ x ∈ c.ids, x ∈ n.ids → ∃ m ∈ n.subtrees, p.replaced = some m.id ∧ x ∈ m.ids := by
  have hfree : Enters w c n → ∀ x ∈ c.ids, x ∉ n.ids := fun he x hx hxn =>
    he.apart (.node x) (Node.node_mem_marks_iff.mpr hx) (Node.node_mem_marks_iff.mpr hxn)
  cases p with
  | addChild x i d =>
    obtain rfl : d = c := Option.some.inj hc
    have he := h.2.2.2
    exact ⟨he.nodup, he.assigned, fun _ hx => hx, fun x hx hxn => absurd hxn (hfree he x hx)⟩
  | addText x i d =>
    obtain rfl : d = c := Option.some.inj hc
    have he := h.2.2.2
    exact ⟨he.nodup, he.assigned, fun _ hx => hx, fun x hx hxn => absurd hxn (hfree he x hx)⟩
  | replaceChild x old new =>
    obtain rfl : new = c := Option.some.inj hc
    obtain ⟨m, hm, hid, hs⟩ := h
    refine ⟨hs.nodup, hs.assigned, fun _ hx => List.mem_append_right _ hx, fun x hx hxn => ?_⟩
    refine ⟨m, Node.mem_subtrees_of_mem_children n.self_mem_subtrees hm, congrArg some hid.symm, ?_⟩
    exact Node.node_mem_marks_iff.mp (hs.apart (.node x) (Node.node_mem_marks_iff.mpr hx)
      (Node.node_mem_marks_iff.mpr hxn))
  | removeChild x d => exact nomatch hc
  | removeText x y => exact nomatch hc
  | reorderChildren x order => exact nomatch hc
  | updateAttribute x old new => exact nomatch hc
  | addAttribute x a => exact nomatch hc
  | removeAttribute x a => exact nomatch hc
  | updateText x u => exact nomatch hc

theorem Leads.fits {t t' : Node P} (h : p.Leads w t t') : p.Fits t := by
  cases h with
  | intro C n target suits clear =>
    refine ⟨?_, fun c hc => (suits.entering hc).2.1, fun c hc => ?_, fun c hc x hx hxt => ?_⟩
    · simp only [Reaches, target]
      exact ⟨n, C.mem_subtrees_plug n, rfl, suits.allowed⟩
    · exact Node.nodup_ids_of_marks (suits.entering hc).1
    · obtain ⟨-, -, htouch, hfree⟩ := suits.entering hc
      rcases List.mem_append.mp ((C.ids_plug n).mem_iff.mp hxt) with hxn | hxC
      · obtain ⟨m, hm, hr, hxm⟩ := hfree x hx hxn
        exact ⟨m, Node.mem_subtrees_trans (C.mem_subtrees_plug n) hm, hr, hxm⟩
      · refine absurd (Context.node_mem_marks_iff.mpr hxC) (clear _ (htouch _ ?_))
        exact Node.node_mem_marks_iff.mpr hx

theorem Leads.edit_eq {t t' : Node P} (h : p.Leads w t t') (ht : t.ids.Nodup) :
    p.edit t = t' := by
  cases h with
  | intro C n target suits clear =>
    rw [edit_of_target target]
    exact Context.modify_plug (Context.not_mem_ids_of_nodup ht n.id_mem_ids) p.act

theorem Leads.keysApart {t t' : Node P} (h : p.Leads w t t') (ht : t.ids.Nodup) :
    ∀ m ∈ t.subtrees, p.target = some m.id → p.KeysApart m := by
  cases h with
  | intro C n target suits clear =>
    intro m hm hid
    rw [target, Option.some.injEq] at hid
    obtain rfl := Node.eq_of_id_eq ht (C.mem_subtrees_plug n) hm hid
    exact suits.keysApart

/-! ### Labels along a course -/

theorem Suits.labelled_entering (h : p.Suits w n) : ∀ c ∈ p.entering, c.Labelled := by
  intro c hc
  cases p with
  | addChild x i d =>
    obtain rfl : d = c := Option.some.inj hc
    exact h.2.2.2.labelled
  | addText x i d =>
    obtain rfl : d = c := Option.some.inj hc
    exact h.2.2.2.labelled
  | replaceChild x old new =>
    obtain rfl : new = c := Option.some.inj hc
    obtain ⟨m, -, -, hm⟩ := h
    exact hm.labelled
  | _ => exact nomatch hc

theorem Suits.not_doubles (h : p.Suits w n) : ¬p.Doubles n.attributes := by
  cases p with
  | updateAttribute x old new => exact fun hd => hd.1 h.2.2.1
  | _ => exact id

theorem Suits.labelled_act (hs : p.Suits w n) (hn : n.Labelled) : (p.act n).Labelled :=
  (labelled_act_iff hn hs.allowed hs.labelled_entering).mpr hs.not_doubles

theorem Leads.labelled {t t' : Node P} (h : p.Leads w t t') (ht : t.Labelled) : t'.Labelled := by
  cases h with
  | intro C n target suits clear => exact Context.labelled_plug ht suits.labelled_act

end Patch

theorem Course.nodup_marks {t t' : Node P} {ps : List (Patch P)} (h : Course w t ps t')
    (ht : (t.marks w).Nodup) : (t'.marks w).Nodup := by
  induction h with
  | nil => exact ht
  | cons hp _ ih => exact ih (hp.nodup_marks ht)

end ViewLoop
