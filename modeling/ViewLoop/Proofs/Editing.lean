import ViewLoop.Patch
import ViewLoop.Proofs.Likeness

/-!
# Editing trees

What a patch does to a tree, without a surface: `Patch.edit` changes the node that the patch aims
at (`Patch.target`) and nothing else, and `Patch.Fits` says which patches can be applied. Neither
looks at payloads, and both give the same answer for trees that are alike (`Alike.fits`,
`Alike.edit`).
-/

namespace ViewLoop

namespace Node

variable {P Q : Type}

def withChildren (f : List (Node P) → List (Node P)) : Node P → Node P
  | element i tag as cs => element i tag as (f cs)
  | text i s => text i s

def withAttributes (f : List (Attribute P) → List (Attribute P)) : Node P → Node P
  | element i tag as cs => element i tag (f as) cs
  | text i s => text i s

def withText (s : String) : Node P → Node P
  | element i tag as cs => element i tag as cs
  | text i _ => text i s

@[simp] theorem id_withChildren (f : List (Node P) → List (Node P)) (n : Node P) :
    (n.withChildren f).id = n.id := by
  cases n <;> rfl

@[simp] theorem id_withAttributes (f : List (Attribute P) → List (Attribute P)) (n : Node P) :
    (n.withAttributes f).id = n.id := by
  cases n <;> rfl

@[simp] theorem id_withText (s : String) (n : Node P) : (n.withText s).id = n.id := by
  cases n <;> rfl

theorem isText_eq_false_of_key_mem {n : Node P} {k : AttributeKey}
    (h : k ∈ n.attributes.map Attribute.key) : n.isText = false := by
  cases n with
  | element i tag as cs => rfl
  | text i s => exact absurd h List.not_mem_nil

theorem map_withChildren (f : P → Q) {g : List (Node P) → List (Node P)}
    {k : List (Node Q) → List (Node Q)} (h : ∀ cs, (g cs).map (map f) = k (cs.map (map f)))
    (n : Node P) : (n.withChildren g).map f = (n.map f).withChildren k := by
  cases n with
  | element i tag as cs => rw [withChildren, map_element, map_element, withChildren, h]
  | text i s => rfl

theorem map_withAttributes (f : P → Q) {g : List (Attribute P) → List (Attribute P)}
    {k : List (Attribute Q) → List (Attribute Q)}
    (h : ∀ as, (g as).map (Attribute.map f) = k (as.map (Attribute.map f))) (n : Node P) :
    (n.withAttributes g).map f = (n.map f).withAttributes k := by
  cases n with
  | element i tag as cs => rw [withAttributes, map_element, map_element, withAttributes, h]
  | text i s => rfl

theorem map_withText (f : P → Q) (s : String) (n : Node P) :
    (n.withText s).map f = (n.map f).withText s := by
  cases n with
  | element i tag as cs => rw [withText, map_element, withText]
  | text i s => rfl

theorem Alike.withChildren {n m : Node P} (h : n.Alike m)
    {f g : List (Node P) → List (Node P)}
    (hfg : ∀ cs ds, List.Forall₂ Alike cs ds → List.Forall₂ Alike (f cs) (g ds)) :
    (n.withChildren f).Alike (m.withChildren g) := by
  cases n with
  | element i tag as cs =>
    obtain ⟨bs, ds, rfl, hp, hf⟩ := alike_element_iff.mp h
    exact alike_element hp (hfg cs ds hf)
  | text i s =>
    rw [alike_text_iff.mp h]
    exact Alike.refl _

theorem Alike.withAttributes {n m : Node P} (h : n.Alike m)
    {f g : List (Attribute P) → List (Attribute P)} (hfg : (f n.attributes).Perm (g m.attributes)) :
    (n.withAttributes f).Alike (m.withAttributes g) := by
  cases n with
  | element i tag as cs =>
    obtain ⟨bs, ds, rfl, hp, hf⟩ := alike_element_iff.mp h
    exact alike_element hfg hf
  | text i s =>
    rw [alike_text_iff.mp h]
    exact Alike.refl _

theorem Alike.withText {n m : Node P} (h : n.Alike m) (s : String) :
    (n.withText s).Alike (m.withText s) := by
  cases n with
  | element i tag as cs =>
    obtain ⟨bs, ds, rfl, hp, hf⟩ := alike_element_iff.mp h
    exact alike_element hp hf
  | text i s => rw [alike_text_iff.mp h]

/-! ### A child between its siblings -/

theorem insertIdx_middle {α : Type} (before after : List α) (x : α) :
    (before ++ after).insertIdx before.length x = before ++ x :: after := by
  induction before with
  | nil => rfl
  | cons y before ih =>
    rw [List.cons_append, List.length_cons, List.insertIdx_succ_cons, ih, List.cons_append]

theorem filter_id_ne {before after : List (Node P)} {c : Node P}
    (h : ((before ++ c :: after).map id).Nodup) :
    ((before ++ c :: after).filter fun d => d.id ≠ c.id) = before ++ after := by
  rw [List.map_append, List.map_cons, List.nodup_append] at h
  obtain ⟨-, hca, hb⟩ := h
  have hbefore : before.filter (fun d => d.id ≠ c.id) = before := by
    refine List.filter_eq_self.mpr fun d hd => ?_
    simpa using hb d.id (List.mem_map_of_mem hd) c.id List.mem_cons_self
  have hafter : after.filter (fun d => d.id ≠ c.id) = after := by
    refine List.filter_eq_self.mpr fun d hd => ?_
    have : d.id ≠ c.id := fun e => (List.nodup_cons.mp hca).1 (e ▸ List.mem_map_of_mem hd)
    simpa using this
  rw [List.filter_append, hbefore, List.filter_cons_of_neg (by simp), hafter]

theorem map_replace_eq {before after : List (Node P)} {c : Node P}
    (h : ((before ++ c :: after).map id).Nodup) (m : Node P) :
    ((before ++ c :: after).map fun d => if d.id = c.id then m else d) = before ++ m :: after := by
  rw [List.map_append, List.map_cons, List.nodup_append] at h
  obtain ⟨-, hca, hb⟩ := h
  have hbefore : (before.map fun d => if d.id = c.id then m else d) = before := by
    refine (List.map_congr_left fun d hd => if_neg ?_).trans (List.map_id before)
    exact hb d.id (List.mem_map_of_mem hd) c.id List.mem_cons_self
  have hafter : (after.map fun d => if d.id = c.id then m else d) = after := by
    refine (List.map_congr_left fun d hd => if_neg fun e => ?_).trans (List.map_id after)
    exact (List.nodup_cons.mp hca).1 (e ▸ List.mem_map_of_mem hd)
  rw [List.map_append, hbefore, List.map_cons, if_pos rfl, hafter]

end Node

/-! ### Attributes by key -/

namespace Attribute

variable {P Q : Type}

/-- The attributes with `new` in the place of the first one with the given key. -/
def put (key : AttributeKey) (new : Attribute P) (as : List (Attribute P)) : List (Attribute P) :=
  as.replaceF fun a => if a.key = key then some new else none

/-- The attributes without the first one with the given key. -/
def drop (key : AttributeKey) (as : List (Attribute P)) : List (Attribute P) :=
  as.eraseP fun a => a.key = key

theorem put_cons (key : AttributeKey) (new a : Attribute P) (as : List (Attribute P)) :
    put key new (a :: as) = if a.key = key then new :: as else a :: put key new as := by
  unfold put
  by_cases h : a.key = key <;> simp [h]

theorem drop_cons (key : AttributeKey) (a : Attribute P) (as : List (Attribute P)) :
    drop key (a :: as) = if a.key = key then as else a :: drop key as := by
  unfold drop
  by_cases h : a.key = key <;> simp [h]

theorem map_put (f : P → Q) (key : AttributeKey) (new : Attribute P) (as : List (Attribute P)) :
    (put key new as).map (map f) = put key (new.map f) (as.map (map f)) := by
  induction as with
  | nil => rfl
  | cons a as ih =>
    rw [List.map_cons, put_cons, put_cons, key_map]
    split
    · rfl
    · rw [List.map_cons, ih]

theorem map_drop (f : P → Q) (key : AttributeKey) (as : List (Attribute P)) :
    (drop key as).map (map f) = drop key (as.map (map f)) := by
  induction as with
  | nil => rfl
  | cons a as ih =>
    rw [List.map_cons, drop_cons, drop_cons, key_map]
    split
    · rfl
    · rw [List.map_cons, ih]

/-- Where keys do not repeat, the first attribute with a key is the only one. -/
theorem put_eq_map {as : List (Attribute P)} (h : (as.map key).Nodup) (k : AttributeKey)
    (new : Attribute P) : put k new as = as.map fun a => if a.key = k then new else a := by
  induction as with
  | nil => rfl
  | cons a as ih =>
    rw [List.map_cons, List.nodup_cons] at h
    rw [put_cons, List.map_cons]
    split
    · rename_i ha
      congr 1
      refine ((List.map_congr_left fun b hb => ?_).trans (List.map_id as)).symm
      exact if_neg fun hk => h.1 (List.mem_map.mpr ⟨b, hb, hk.trans ha.symm⟩)
    · rw [ih h.2]

theorem drop_eq_filter {as : List (Attribute P)} (h : (as.map key).Nodup) (k : AttributeKey) :
    drop k as = as.filter fun a => a.key ≠ k := by
  induction as with
  | nil => rfl
  | cons a as ih =>
    rw [List.map_cons, List.nodup_cons] at h
    rw [drop_cons]
    by_cases ha : a.key = k
    · have hk : ∀ b ∈ as, b.key ≠ k := fun b hb hbk =>
        h.1 (List.mem_map.mpr ⟨b, hb, hbk.trans ha.symm⟩)
      rw [if_pos ha, List.filter_cons_of_neg (by simpa using ha)]
      exact (List.filter_eq_self.mpr fun b hb => by simpa using hk b hb).symm
    · rw [if_neg ha, ih h.2, List.filter_cons_of_pos (by simpa using ha)]

theorem put_perm {as bs : List (Attribute P)} (h : as.Perm bs) (hk : (as.map key).Nodup)
    (k : AttributeKey) (new : Attribute P) : (put k new as).Perm (put k new bs) := by
  rw [put_eq_map hk, put_eq_map ((h.map key).nodup_iff.mp hk)]
  exact h.map _

theorem drop_perm {as bs : List (Attribute P)} (h : as.Perm bs) (hk : (as.map key).Nodup)
    (k : AttributeKey) : (drop k as).Perm (drop k bs) := by
  rw [drop_eq_filter hk, drop_eq_filter ((h.map key).nodup_iff.mp hk)]
  exact h.filter _

theorem put_middle {before after : List (Attribute P)} {a : Attribute P}
    (h : ((before ++ a :: after).map key).Nodup) (new : Attribute P) :
    put a.key new (before ++ a :: after) = before ++ new :: after := by
  rw [List.map_append, List.map_cons, List.nodup_append] at h
  obtain ⟨-, -, hb⟩ := h
  induction before with
  | nil => rw [List.nil_append, put_cons, if_pos rfl, List.nil_append]
  | cons b before ih =>
    have hne : b.key ≠ a.key := hb b.key List.mem_cons_self a.key List.mem_cons_self
    rw [List.cons_append, put_cons, if_neg hne, List.cons_append,
      ih fun x hx => hb x (List.mem_cons_of_mem _ hx)]

theorem drop_middle {before after : List (Attribute P)} {a : Attribute P}
    (h : ((before ++ a :: after).map key).Nodup) :
    drop a.key (before ++ a :: after) = before ++ after := by
  rw [List.map_append, List.map_cons, List.nodup_append] at h
  obtain ⟨-, -, hb⟩ := h
  induction before with
  | nil => rw [List.nil_append, drop_cons, if_pos rfl, List.nil_append]
  | cons b before ih =>
    have hne : b.key ≠ a.key := hb b.key List.mem_cons_self a.key List.mem_cons_self
    rw [List.cons_append, drop_cons, if_neg hne, List.cons_append,
      ih fun x hx => hb x (List.mem_cons_of_mem _ hx)]

end Attribute

/-! ### Patches -/

namespace Patch

variable {P Q : Type}

def map (f : P → Q) : Patch P → Patch Q
  | addChild parent index child => addChild parent index (child.map f)
  | removeChild parent child => removeChild parent (child.map f)
  | replaceChild parent old new => replaceChild parent (old.map f) (new.map f)
  | reorderChildren parent order => reorderChildren parent order
  | updateAttribute element old new => updateAttribute element (old.map f) (new.map f)
  | addAttribute element a => addAttribute element (a.map f)
  | removeAttribute element a => removeAttribute element (a.map f)
  | updateText node s => updateText node s
  | addText parent index node => addText parent index (node.map f)
  | removeText parent node => removeText parent node

def erased (p : Patch P) : Patch Unit := p.map fun _ => ()

/-- The node that a patch changes. A patch of the root itself has none. -/
def target : Patch P → Option NodeId
  | addChild parent _ _ => some parent
  | removeChild parent _ => some parent
  | replaceChild parent _ _ => parent
  | reorderChildren parent _ => some parent
  | updateAttribute element _ _ => some element
  | addAttribute element _ => some element
  | removeAttribute element _ => some element
  | updateText node _ => some node
  | addText parent _ _ => some parent
  | removeText parent _ => some parent

/-- What a patch makes of the node that it changes. -/
def act : Patch P → Node P → Node P
  | addChild _ index child => Node.withChildren (·.insertIdx index child)
  | removeChild _ child => Node.withChildren (·.filter fun c => c.id ≠ child.id)
  | replaceChild _ old new => Node.withChildren (·.map fun c => if c.id = old.id then new else c)
  | reorderChildren _ order =>
    Node.withChildren fun cs => order.filterMap fun x => cs.find? fun c => c.id = x
  | updateAttribute _ old new => Node.withAttributes (Attribute.put old.key new)
  | addAttribute _ a => Node.withAttributes (· ++ [a])
  | removeAttribute _ a => Node.withAttributes (Attribute.drop a.key)
  | updateText _ s => Node.withText s
  | addText _ index node => Node.withChildren (·.insertIdx index node)
  | removeText _ node => Node.withChildren (·.filter fun c => c.id ≠ node)

def edit (p : Patch P) (t : Node P) : Node P :=
  match p.target, p with
  | some x, _ => t.modify x p.act
  | none, replaceChild _ _ new => new
  | none, _ => t

def entering : Patch P → Option (Node P)
  | addChild _ _ child => some child
  | replaceChild _ _ new => some new
  | addText _ _ node => some node
  | _ => none

/-- The identity of the tree in whose place another one is put. -/
def replaced : Patch P → Option NodeId
  | replaceChild _ old _ => some old.id
  | _ => none

/-- What must hold of the node that a patch changes. -/
def Allowed (n : Node Q) : Patch P → Prop
  | addChild _ index child => child.isText = false ∧ n.isText = false ∧ index ≤ n.children.length
  | removeChild _ child => ∃ c ∈ n.children, c.id = child.id ∧ c.isText = false
  | replaceChild _ old _ => ∃ c ∈ n.children, c.id = old.id
  | reorderChildren _ order => n.isText = false ∧ order.Perm (n.children.map Node.id)
  | updateAttribute _ old _ => old.key ∈ n.attributes.map Attribute.key
  | addAttribute _ a => n.isText = false ∧ a.key ∉ n.attributes.map Attribute.key
  | removeAttribute _ a => a.key ∈ n.attributes.map Attribute.key
  | updateText _ _ => n.isText = true
  | addText _ index node => node.isText = true ∧ n.isText = false ∧ index ≤ n.children.length
  | removeText _ node => ∃ c ∈ n.children, c.id = node ∧ c.isText = true

/-- The node that a patch changes is there, and the patch suits it. -/
def Reaches (t : Node Q) (p : Patch P) : Prop :=
  match p.target with
  | some x => ∃ n ∈ t.subtrees, n.id = x ∧ p.Allowed n
  | none => p.replaced = some t.id

/-- Whether a patch can be applied to a tree: it reaches its node, and what it brings in has
identities that are assigned, distinct, and not in the tree but where it is replaced. -/
structure Fits (t : Node Q) (p : Patch P) : Prop where
  reaches : p.Reaches t
  assigned : ∀ c ∈ p.entering, ∀ x ∈ c.ids, x.isAssigned = true
  nodup : ∀ c ∈ p.entering, c.ids.Nodup
  free : ∀ c ∈ p.entering, ∀ x ∈ c.ids, x ∈ t.ids →
    ∃ m ∈ t.subtrees, p.replaced = some m.id ∧ x ∈ m.ids

instance (n : Node Q) : (p : Patch P) → Decidable (p.Allowed n)
  | addChild .. | addText .. => inferInstanceAs (Decidable (_ ∧ _ ∧ _))
  | removeChild .. | removeText .. => inferInstanceAs (Decidable (∃ c ∈ n.children, _ ∧ _))
  | replaceChild .. => inferInstanceAs (Decidable (∃ c ∈ n.children, _))
  | reorderChildren .. | addAttribute .. => inferInstanceAs (Decidable (_ ∧ _))
  | updateAttribute .. | removeAttribute .. => inferInstanceAs (Decidable (_ ∈ _))
  | updateText .. => inferInstanceAs (Decidable (_ = _))

instance (t : Node Q) (p : Patch P) : Decidable (p.Reaches t) :=
  match h : p.target with
  | some x => decidable_of_iff (∃ n ∈ t.subtrees, n.id = x ∧ p.Allowed n) (by rw [Reaches, h])
  | none => decidable_of_iff (p.replaced = some t.id) (by rw [Reaches, h])

instance (t : Node Q) (p : Patch P) : Decidable (p.Fits t) :=
  decidable_of_iff (p.Reaches t ∧ (∀ c ∈ p.entering, ∀ x ∈ c.ids, x.isAssigned = true)
      ∧ (∀ c ∈ p.entering, c.ids.Nodup)
      ∧ ∀ c ∈ p.entering, ∀ x ∈ c.ids, x ∈ t.ids →
        ∃ m ∈ t.subtrees, p.replaced = some m.id ∧ x ∈ m.ids)
    ⟨fun ⟨hr, ha, hn, hf⟩ => ⟨hr, ha, hn, hf⟩, fun h => ⟨h.reaches, h.assigned, h.nodup, h.free⟩⟩

theorem edit_of_target {p : Patch P} {x : NodeId} (h : p.target = some x) (t : Node P) :
    p.edit t = t.modify x p.act := by
  cases p <;> simp_all [edit, target]

/-! ### Patches and payloads -/

@[simp] theorem target_map (f : P → Q) (p : Patch P) : (p.map f).target = p.target := by
  cases p <;> rfl

theorem act_map (f : P → Q) (p : Patch P) (n : Node P) :
    (p.act n).map f = (p.map f).act (n.map f) := by
  cases p with
  | addChild parent index child =>
    exact Node.map_withChildren f (fun cs => by simp [List.map_insertIdx]) n
  | removeChild parent child =>
    refine Node.map_withChildren f (fun cs => ?_) n
    rw [List.filter_map]
    congr 2
    funext c
    simp
  | replaceChild parent old new =>
    refine Node.map_withChildren f (fun cs => ?_) n
    rw [List.map_map, List.map_map]
    refine List.map_congr_left fun c _ => ?_
    simp only [Function.comp_apply, Node.id_map]
    split <;> rfl
  | reorderChildren parent order =>
    refine Node.map_withChildren f (fun cs => ?_) n
    rw [List.map_filterMap]
    congr 1
    funext x
    rw [List.find?_map]
    congr 2
    funext c
    simp
  | updateAttribute element old new =>
    refine Node.map_withAttributes f (fun as => ?_) n
    rw [Attribute.map_put, Attribute.key_map]
  | addAttribute element a => exact Node.map_withAttributes f (fun as => by simp) n
  | removeAttribute element a =>
    refine Node.map_withAttributes f (fun as => ?_) n
    rw [Attribute.map_drop, Attribute.key_map]
  | updateText node s => exact Node.map_withText f s n
  | addText parent index node =>
    exact Node.map_withChildren f (fun cs => by simp [List.map_insertIdx]) n
  | removeText parent node =>
    refine Node.map_withChildren f (fun cs => ?_) n
    rw [List.filter_map]
    congr 2
    funext c
    simp

theorem edit_map (f : P → Q) (p : Patch P) (t : Node P) :
    (p.edit t).map f = (p.map f).edit (t.map f) := by
  cases h : p.target with
  | some x =>
    rw [edit_of_target h, edit_of_target ((target_map f p).trans h)]
    exact Node.map_modify x f _ _ (act_map f p) t
  | none => cases p <;> simp_all [edit, target, map]

theorem allowed_map (f : Q → P) (n : Node Q) {R : Type} (p : Patch R) :
    p.Allowed (n.map f) ↔ p.Allowed n := by
  cases p <;> simp [Allowed, Node.children_map, Node.attributes_map, Function.comp_def]

theorem fits_map (f : Q → P) (t : Node Q) {R : Type} (p : Patch R) :
    p.Fits (t.map f) ↔ p.Fits t := by
  have hr : p.Reaches (t.map f) ↔ p.Reaches t := by
    unfold Reaches
    cases p.target <;> simp [Node.subtrees_map, allowed_map]
  constructor
  · rintro ⟨h1, h2, h3, h4⟩
    refine ⟨hr.mp h1, h2, h3, fun c hc x hx hxt => ?_⟩
    obtain ⟨m, hm, hid, hxm⟩ := h4 c hc x hx (by rwa [Node.ids_map])
    rw [Node.subtrees_map, List.mem_map] at hm
    obtain ⟨k, hk, rfl⟩ := hm
    exact ⟨k, hk, by rwa [Node.id_map] at hid, by rwa [Node.ids_map] at hxm⟩
  · rintro ⟨h1, h2, h3, h4⟩
    refine ⟨hr.mpr h1, h2, h3, fun c hc x hx hxt => ?_⟩
    rw [Node.ids_map] at hxt
    obtain ⟨m, hm, hid, hxm⟩ := h4 c hc x hx hxt
    refine ⟨m.map f, ?_, by rwa [Node.id_map], by rwa [Node.ids_map]⟩
    rw [Node.subtrees_map]
    exact List.mem_map_of_mem hm

theorem map_id_find?_of_perm {cs : List (Node P)} {order : List NodeId}
    (h : order.Perm (cs.map Node.id)) (hn : (cs.map Node.id).Nodup) :
    (order.filterMap fun x => cs.find? fun c => c.id = x).map Node.id = order
      ∧ (order.filterMap fun x => cs.find? fun c => c.id = x).Perm cs := by
  have hfind : ∀ x ∈ order, ∃ c ∈ cs, cs.find? (fun c => c.id = x) = some c ∧ c.id = x := by
    intro x hx
    obtain ⟨c, hc, rfl⟩ := List.mem_map.mp (h.mem_iff.mp hx)
    cases hf : cs.find? fun d => d.id = c.id with
    | none => exact absurd (List.find?_eq_none.mp hf c hc) (by simp)
    | some d =>
      have hd : d.id = c.id := by simpa using List.find?_some hf
      exact ⟨d, List.mem_of_find?_eq_some hf, rfl, hd⟩
  have hids : (order.filterMap fun x => cs.find? fun c => c.id = x).map Node.id = order := by
    clear h
    induction order with
    | nil => rfl
    | cons x order ih =>
      obtain ⟨c, -, hc, hid⟩ := hfind x List.mem_cons_self
      rw [List.filterMap_cons_some (f := fun x => cs.find? fun c => c.id = x) hc, List.map_cons, hid,
        ih fun y hy => hfind y (List.mem_cons_of_mem _ hy)]
  refine ⟨hids, ?_⟩
  have hn' := h.nodup_iff.mpr hn
  rw [← hids] at hn'
  refine (List.perm_ext_iff_of_nodup (List.Nodup.of_map _ hn') (List.Nodup.of_map _ hn)).mpr ?_
  intro c
  constructor
  · intro hc
    obtain ⟨x, -, hx⟩ := List.mem_filterMap.mp hc
    exact List.mem_of_find?_eq_some hx
  · intro hc
    have hx : c.id ∈ order := h.mem_iff.mpr (List.mem_map_of_mem hc)
    obtain ⟨d, hd, hf, hid⟩ := hfind c.id hx
    obtain rfl : d = c := List.inj_on_of_nodup_map hn hd hc hid
    exact List.mem_filterMap.mpr ⟨d.id, hx, hf⟩

/-! ### Patches and likeness -/

theorem forall₂_insertIdx {cs ds : List (Node P)} (h : List.Forall₂ Node.Alike cs ds) (i : Nat)
    (c : Node P) : List.Forall₂ Node.Alike (cs.insertIdx i c) (ds.insertIdx i c) := by
  induction i generalizing cs ds with
  | zero => exact .cons (.refl c) h
  | succ i ih =>
    cases h with
    | nil => exact .nil
    | cons hd tl => exact .cons hd (ih tl)

theorem forall₂_filter {cs ds : List (Node P)} (h : List.Forall₂ Node.Alike cs ds) (x : NodeId) :
    List.Forall₂ Node.Alike (cs.filter fun c => c.id ≠ x) (ds.filter fun c => c.id ≠ x) := by
  induction h with
  | nil => exact .nil
  | cons hd _ tail =>
    simp only [List.filter_cons, hd.id_eq]
    split
    · exact .cons hd tail
    · exact tail

theorem forall₂_replace {cs ds : List (Node P)} (h : List.Forall₂ Node.Alike cs ds) (x : NodeId)
    (n : Node P) :
    List.Forall₂ Node.Alike (cs.map fun c => if c.id = x then n else c)
      (ds.map fun c => if c.id = x then n else c) := by
  rw [List.forall₂_map_left_iff, List.forall₂_map_right_iff]
  refine h.imp fun c d hcd => ?_
  rw [hcd.id_eq]
  split
  · exact .refl n
  · exact hcd

theorem forall₂_find? {cs ds : List (Node P)} (h : List.Forall₂ Node.Alike cs ds) (x : NodeId) :
    Option.Rel Node.Alike (cs.find? fun c => c.id = x) (ds.find? fun c => c.id = x) := by
  induction h with
  | nil => exact .none
  | cons hd _ tail =>
    simp only [List.find?_cons, hd.id_eq]
    split
    · exact .some hd
    · exact tail

theorem forall₂_reorder {cs ds : List (Node P)} (h : List.Forall₂ Node.Alike cs ds)
    (order : List NodeId) :
    List.Forall₂ Node.Alike (order.filterMap fun x => cs.find? fun c => c.id = x)
      (order.filterMap fun x => ds.find? fun c => c.id = x) := by
  induction order with
  | nil => exact .nil
  | cons x order ih =>
    rw [List.filterMap_cons, List.filterMap_cons]
    have hr := forall₂_find? h x
    cases hc : cs.find? fun c => c.id = x with
    | none =>
      rw [hc] at hr
      generalize ds.find? (fun c => c.id = x) = e at hr ⊢
      cases hr
      exact ih
    | some c =>
      rw [hc] at hr
      generalize ds.find? (fun c => c.id = x) = e at hr ⊢
      cases hr with
      | some hcd => exact .cons hcd ih

/-- A patch that looks an attribute up by its key needs the key to be that of one attribute. -/
def KeysApart (n : Node Q) : Patch P → Prop
  | updateAttribute _ _ _ => (n.attributes.map Attribute.key).Nodup
  | removeAttribute _ _ => (n.attributes.map Attribute.key).Nodup
  | _ => True

theorem keysApart_map (f : P → Q) {n : Node P} {p : Patch P} (h : p.KeysApart n) :
    (p.map f).KeysApart (n.map f) := by
  have hkeys : (n.attributes.map Attribute.key).Nodup →
      ((n.map f).attributes.map Attribute.key).Nodup := by
    simp [Node.attributes_map, Function.comp_def]
  cases p with
  | updateAttribute element old new => exact hkeys h
  | removeAttribute element a => exact hkeys h
  | _ => exact trivial

theorem act_alike {n m : Node P} (h : n.Alike m) {p : Patch P} (hk : p.KeysApart n) :
    (p.act n).Alike (p.act m) := by
  cases p with
  | addChild parent index child => exact h.withChildren fun _ _ hf => forall₂_insertIdx hf _ _
  | removeChild parent child => exact h.withChildren fun _ _ hf => forall₂_filter hf _
  | replaceChild parent old new => exact h.withChildren fun _ _ hf => forall₂_replace hf _ _
  | reorderChildren parent order => exact h.withChildren fun _ _ hf => forall₂_reorder hf _
  | updateAttribute element old new =>
    exact h.withAttributes (Attribute.put_perm h.attributes_perm hk _ _)
  | addAttribute element a => exact h.withAttributes (h.attributes_perm.append_right _)
  | removeAttribute element a =>
    exact h.withAttributes (Attribute.drop_perm h.attributes_perm hk _)
  | updateText node s => exact h.withText s
  | addText parent index node => exact h.withChildren fun _ _ hf => forall₂_insertIdx hf _ _
  | removeText parent node => exact h.withChildren fun _ _ hf => forall₂_filter hf _

/-- A change of one of two trees that are alike is a like change of the other. -/
theorem edit_alike {s t : Node P} (h : s.Alike t) {p : Patch P}
    (hk : ∀ n ∈ s.subtrees, p.target = some n.id → p.KeysApart n) :
    (p.edit s).Alike (p.edit t) := by
  cases hp : p.target with
  | some x =>
    rw [edit_of_target hp, edit_of_target hp]
    refine h.modify x fun n hn _ _ hnm hid => act_alike hnm (hk n hn ?_)
    rw [hp, hid]
  | none =>
    have key : p.edit s = p.edit t ∨ p.edit s = s ∧ p.edit t = t := by
      cases p <;> simp_all [edit, target]
    rcases key with hk | ⟨hs, ht⟩
    · rw [hk]
    · rwa [hs, ht]

theorem allowed_alike {n m : Node P} (h : n.Alike m) {R : Type} {p : Patch R}
    (hp : p.Allowed n) : p.Allowed m := by
  have hkeys : ∀ k, k ∈ n.attributes.map Attribute.key ↔ k ∈ m.attributes.map Attribute.key :=
    fun _ => (h.attributes_perm.map Attribute.key).mem_iff
  have hids := Node.map_id_eq_of_forall₂ h.children
  cases p with
  | addChild parent index child => rwa [Allowed, ← h.isText_eq, ← h.children.length_eq]
  | addText parent index node => rwa [Allowed, ← h.isText_eq, ← h.children.length_eq]
  | removeChild parent child =>
    obtain ⟨c, hc, hid, ht⟩ := hp
    obtain ⟨d, hd, hcd⟩ := Node.exists_of_forall₂ h.children hc
    exact ⟨d, hd, hcd.id_eq ▸ hid, hcd.isText_eq ▸ ht⟩
  | removeText parent node =>
    obtain ⟨c, hc, hid, ht⟩ := hp
    obtain ⟨d, hd, hcd⟩ := Node.exists_of_forall₂ h.children hc
    exact ⟨d, hd, hcd.id_eq ▸ hid, hcd.isText_eq ▸ ht⟩
  | replaceChild parent old new =>
    obtain ⟨c, hc, hid⟩ := hp
    obtain ⟨d, hd, hcd⟩ := Node.exists_of_forall₂ h.children hc
    exact ⟨d, hd, hcd.id_eq ▸ hid⟩
  | reorderChildren parent order => rwa [Allowed, ← h.isText_eq, ← hids]
  | updateAttribute element old new => exact (hkeys _).mp hp
  | addAttribute element a =>
    exact ⟨h.isText_eq ▸ hp.1, fun hm => hp.2 ((hkeys _).mpr hm)⟩
  | removeAttribute element a => exact (hkeys _).mp hp
  | updateText node s => exact h.isText_eq.symm.trans hp

theorem fits_alike {s t : Node P} (h : s.Alike t) {R : Type} {p : Patch R} (hp : p.Fits s) :
    p.Fits t := by
  refine ⟨?_, hp.assigned, hp.nodup, fun c hc x hx hxt => ?_⟩
  · have hr := hp.reaches
    unfold Reaches at hr ⊢
    cases hx : p.target with
    | some x =>
      rw [hx] at hr
      obtain ⟨n, hn, hid, ha⟩ := hr
      obtain ⟨m, hm, hnm⟩ := h.exists_subtree hn
      exact ⟨m, hm, hnm.id_eq ▸ hid, allowed_alike hnm ha⟩
    | none =>
      rw [hx] at hr
      exact h.id_eq ▸ hr
  · obtain ⟨n, hn, hid, hxn⟩ := hp.free c hc x hx (h.ids_eq ▸ hxt)
    obtain ⟨m, hm, hnm⟩ := h.exists_subtree hn
    exact ⟨m, hm, hnm.id_eq ▸ hid, hnm.ids_eq ▸ hxn⟩

end Patch

end ViewLoop
