import ViewLoop.Proofs.Editing

/-!
# Labelled trees

In a labelled tree no element has two attributes of one key. Whether a change of one node leaves the
tree labelled is decided by that node (`Context.labelled_plug_iff`). A patch that fits and brings in
nothing but labelled trees leaves a tree labelled, with one exception: an update that puts an
attribute in the place of one of another key, beside an attribute of the new key
(`Patch.labelled_edit_iff`).
-/

namespace ViewLoop

variable {P : Type}

/-! ### Keys of one element -/

/-- An attribute put in the place of another makes a key occur twice iff it has the key of a third
one. -/
theorem Attribute.nodup_put_iff {as : List (Attribute P)} (h : (as.map key).Nodup)
    {k : AttributeKey} (hk : k ∈ as.map key) (new : Attribute P) :
    ((put k new as).map key).Nodup ↔ ¬(new.key ≠ k ∧ new.key ∈ as.map key) := by
  obtain ⟨a, ha, rfl⟩ := List.mem_map.mp hk
  obtain ⟨before, after, rfl⟩ := List.append_of_mem ha
  rw [put_middle h]
  rw [List.map_append, List.map_cons, List.perm_middle.nodup_iff, List.nodup_cons] at h
  rw [List.map_append, List.map_cons, List.perm_middle.nodup_iff, List.nodup_cons,
    and_iff_left h.2, List.map_append, List.map_cons, List.perm_middle.mem_iff, List.mem_cons]
  constructor
  · rintro hfree ⟨hne, heq | hmem⟩
    · exact hne heq
    · exact hfree hmem
  · intro hno hmem
    exact hno ⟨fun heq => h.1 (heq ▸ hmem), Or.inr hmem⟩

/-! ### Trees -/

/-- No element has two attributes of one key. -/
def Node.Labelled (n : Node P) : Prop := ∀ m ∈ n.subtrees, (m.attributes.map Attribute.key).Nodup

instance (n : Node P) : Decidable n.Labelled :=
  inferInstanceAs (Decidable (∀ m ∈ n.subtrees, (m.attributes.map Attribute.key).Nodup))

theorem Node.labelled_element {i : NodeId} {tag : String} {as : List (Attribute P)}
    {cs : List (Node P)} :
    (element i tag as cs).Labelled ↔ (as.map Attribute.key).Nodup ∧ ∀ c ∈ cs, c.Labelled := by
  constructor
  · intro h
    refine ⟨h _ (self_mem_subtrees _), fun c hc m hm => h m (mem_subtrees_of_mem hc hm)⟩
  · rintro ⟨has, hcs⟩ m hm
    rw [subtrees_element, List.mem_cons] at hm
    rcases hm with rfl | hm
    · exact has
    · obtain ⟨c, hc, hmc⟩ := List.mem_flatMap.mp hm
      exact hcs c hc m hmc

theorem Node.labelled_text (i : NodeId) (s : String) : (text i s : Node P).Labelled := by
  intro m hm
  obtain rfl := List.mem_singleton.mp hm
  exact List.nodup_nil

theorem Node.Labelled.of_mem {n m : Node P} (h : n.Labelled) (hm : m ∈ n.subtrees) : m.Labelled :=
  fun x hx => h x (mem_subtrees_trans hm hx)

theorem Node.Labelled.map {Q : Type} {n : Node P} (h : n.Labelled) (f : P → Q) :
    (n.map f).Labelled := by
  intro x hx
  rw [subtrees_map, List.mem_map] at hx
  obtain ⟨m, hm, rfl⟩ := hx
  have hkeys : (m.map f).attributes.map Attribute.key = m.attributes.map Attribute.key := by
    simp [attributes_map, Function.comp_def]
  rw [hkeys]
  exact h m hm

theorem Node.Labelled.withChildren {n : Node P} (hn : n.Labelled)
    {f : List (Node P) → List (Node P)}
    (hf : ∀ c ∈ f n.children, c ∈ n.children ∨ c.Labelled) : (n.withChildren f).Labelled := by
  cases n with
  | text i s => exact hn
  | element i tag as cs =>
    obtain ⟨has, hcs⟩ := labelled_element.mp hn
    exact labelled_element.mpr ⟨has, fun c hc => (hf c hc).elim (hcs c) fun h => h⟩

theorem Node.Labelled.insertChild {n c : Node P} (hn : n.Labelled) (hc : c.Labelled) (i : Nat) :
    (n.withChildren (·.insertIdx i c)).Labelled :=
  hn.withChildren fun _ hd => (List.eq_or_mem_of_mem_insertIdx hd).elim
    (fun h => Or.inr (h ▸ hc)) Or.inl

theorem Node.Labelled.withAttributes_iff {n : Node P} (hn : n.Labelled) (hkind : n.isText = false)
    {f : List (Attribute P) → List (Attribute P)} :
    (n.withAttributes f).Labelled ↔ ((f n.attributes).map Attribute.key).Nodup := by
  cases n with
  | text i s => exact absurd hkind (by simp [isText])
  | element i tag as cs =>
    rw [Node.withAttributes, labelled_element, and_iff_left (labelled_element.mp hn).2]
    rfl

theorem Context.labelled_plug {C : Context P} {n m : Node P} (h : (C.plug n).Labelled)
    (hm : n.Labelled → m.Labelled) : (C.plug m).Labelled := by
  induction C with
  | hole => exact hm h
  | under i tag as before inner after ih =>
    rw [plug, Node.labelled_element] at h ⊢
    refine ⟨h.1, fun c hc => ?_⟩
    rcases List.mem_append.mp hc with hc | hc
    · exact h.2 c (List.mem_append_left _ hc)
    · rcases List.mem_cons.mp hc with rfl | hc
      · exact ih (h.2 _ (List.mem_append_right _ List.mem_cons_self))
      · exact h.2 c (List.mem_append_right _ (List.mem_cons_of_mem _ hc))

theorem Context.labelled_plug_iff {C : Context P} {n m : Node P} (h : (C.plug n).Labelled) :
    (C.plug m).Labelled ↔ m.Labelled :=
  ⟨fun hC => hC.of_mem (C.mem_subtrees_plug m), fun hm => labelled_plug h fun _ => hm⟩

/-! ### Patches -/

namespace Patch

/-- Among these attributes the patch puts one in the place of another of a different key, beside one
of its own key. -/
def Doubles {Q : Type} (as : List (Attribute Q)) : Patch P → Prop
  | updateAttribute _ old new =>
    new.key ≠ old.key ∧ old.key ∈ as.map Attribute.key ∧ new.key ∈ as.map Attribute.key
  | _ => False

theorem labelled_act_iff {p : Patch P} {n : Node P} (hn : n.Labelled) (ha : p.Allowed n)
    (hc : ∀ c ∈ p.entering, c.Labelled) : (p.act n).Labelled ↔ ¬p.Doubles n.attributes := by
  cases p with
  | updateAttribute x old new =>
    have hkind := Node.isText_eq_false_of_key_mem ha
    rw [act, hn.withAttributes_iff hkind,
      Attribute.nodup_put_iff (hn n n.self_mem_subtrees) ha new, Doubles]
    exact not_congr (and_congr_right fun _ => (and_iff_right ha).symm)
  -- every other patch leaves the node labelled
  | addChild x i c => exact iff_of_true (hn.insertChild (hc c rfl) i) id
  | addText x i c => exact iff_of_true (hn.insertChild (hc c rfl) i) id
  | removeChild x c =>
    exact iff_of_true (hn.withChildren fun d hd => Or.inl (List.mem_filter.mp hd).1) id
  | removeText x y =>
    exact iff_of_true (hn.withChildren fun d hd => Or.inl (List.mem_filter.mp hd).1) id
  | replaceChild x old new =>
    refine iff_of_true (hn.withChildren fun d hd => ?_) id
    obtain ⟨e, he, rfl⟩ := List.mem_map.mp hd
    split
    · exact Or.inr (hc new rfl)
    · exact Or.inl he
  | reorderChildren x order =>
    refine iff_of_true (hn.withChildren fun d hd => ?_) id
    obtain ⟨y, -, hy⟩ := List.mem_filterMap.mp hd
    exact Or.inl (List.mem_of_find?_eq_some hy)
  | addAttribute x a =>
    refine iff_of_true ((hn.withAttributes_iff ha.1).mpr ?_) id
    rw [List.map_append, List.map_singleton, List.nodup_append]
    refine ⟨hn n n.self_mem_subtrees, List.nodup_singleton _, fun k hk l hl e => ha.2 ?_⟩
    exact List.mem_singleton.mp hl ▸ e ▸ hk
  | removeAttribute x a =>
    have hkind := Node.isText_eq_false_of_key_mem ha
    refine iff_of_true ((hn.withAttributes_iff hkind).mpr ?_) id
    exact (hn n n.self_mem_subtrees).sublist (List.eraseP_sublist.map _)
  | updateText x u =>
    refine iff_of_true ?_ id
    cases n with
    | element j tag as cs => exact hn
    | text j v => exact Node.labelled_text j u

theorem entering_map {Q : Type} (f : P → Q) (p : Patch P) :
    (p.map f).entering = p.entering.map (Node.map f) := by
  cases p <;> rfl

theorem allowed_of_map {Q R : Type} (f : P → Q) {n : Node R} {p : Patch P} :
    (p.map f).Allowed n ↔ p.Allowed n := by
  cases p <;> simp [map, Allowed]

theorem doubles_map {Q R : Type} (f : P → Q) {as : List (Attribute R)} {p : Patch P} :
    (p.map f).Doubles as ↔ p.Doubles as := by
  cases p with
  | updateAttribute x old new => simp only [map, Doubles, Attribute.key_map]
  | _ => exact Iff.rfl

/-- A patch that fits leaves a labelled tree labelled iff it doubles no key of the node that it
changes. -/
theorem labelled_edit_iff {p : Patch P} {t : Node Unit} (ht : t.Labelled) (hids : t.ids.Nodup)
    (hp : p.Fits t) (hc : ∀ c ∈ p.entering, c.Labelled) :
    (p.erased.edit t).Labelled
      ↔ ¬∃ n ∈ t.subtrees, p.target = some n.id ∧ p.Doubles n.attributes := by
  have hentering : ∀ c ∈ p.erased.entering, c.Labelled := by
    intro c hmem
    rw [erased, entering_map] at hmem
    obtain ⟨d, hd, rfl⟩ := Option.map_eq_some_iff.mp hmem
    exact (hc d hd).map _
  cases htarget : p.target with
  | none =>
    -- the root is replaced, so the new tree is the one that came in
    refine iff_of_true ?_ (by simp)
    cases p with
    | replaceChild parent old new =>
      obtain rfl : parent = none := htarget
      exact hentering _ rfl
    | _ => exact nomatch htarget
  | some x =>
    have hreaches := hp.reaches
    simp only [Reaches, htarget] at hreaches
    obtain ⟨n, hn, rfl, ha⟩ := hreaches
    have honly : (∃ m ∈ t.subtrees, some n.id = some m.id ∧ p.Doubles m.attributes)
        ↔ p.Doubles n.attributes := by
      constructor
      · rintro ⟨m, hm, hid, hd⟩
        exact Node.eq_of_id_eq hids hm hn (Option.some.inj hid).symm ▸ hd
      · exact fun hd => ⟨n, hn, rfl, hd⟩
    have hedit : p.erased.edit t = t.modify n.id p.erased.act :=
      edit_of_target ((target_map _ p).trans htarget) t
    have hact : (p.erased.act n).Labelled ↔ ¬p.erased.Doubles n.attributes :=
      labelled_act_iff (ht.of_mem hn) ((allowed_of_map _).mpr ha) hentering
    rw [hedit, honly, ← doubles_map fun _ => (), ← erased, ← hact]
    obtain ⟨C, rfl, hmodify⟩ := Node.exists_context hn hids
    rw [hmodify, Context.labelled_plug_iff ht]

end Patch

end ViewLoop
