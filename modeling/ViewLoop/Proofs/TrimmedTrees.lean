import ViewLoop.Proofs.FirstAttributes

/-!
# Trimmed trees

The tree with the attributes of its elements trimmed (`Node.trimmed`), and the patch with the trees
in it trimmed (`Patch.trimmed`). A patch that the trimmed tree takes is one that the tree takes, and
trimming the edited tree is the same as editing the trimmed one (`Patch.fits_of_trimmed`,
`Patch.trimmed_edit`): what is hidden behind a first attribute is in nobody's way, until the patch
that removes the first one.
-/

namespace ViewLoop

variable {P Q : Type} {off : List (NodeId × AttributeKey)} {x : NodeId}

namespace Node

variable {n m t : Node P}

mutual

/-- The tree with the attributes of each element trimmed. -/
def trimmed (off : List (NodeId × AttributeKey)) : Node P → Node P
  | element i tag as cs => element i tag (Attribute.trim off i as) (trimmedForest off cs)
  | text i s => text i s

def trimmedForest (off : List (NodeId × AttributeKey)) : List (Node P) → List (Node P)
  | [] => []
  | c :: cs => trimmed off c :: trimmedForest off cs

end

theorem trimmedForest_eq_map (off : List (NodeId × AttributeKey)) (cs : List (Node P)) :
    trimmedForest off cs = cs.map (trimmed off) := by
  induction cs with
  | nil => rfl
  | cons c cs ih => simp only [trimmedForest, List.map_cons, ih]

theorem trimmed_element (off : List (NodeId × AttributeKey)) (i : NodeId) (tag : String)
    (as : List (Attribute P)) (cs : List (Node P)) :
    (element i tag as cs).trimmed off
      = element i tag (Attribute.trim off i as) (cs.map (trimmed off)) := by
  rw [trimmed, trimmedForest_eq_map]

/-! ### What trimming leaves alone -/

@[simp] theorem id_trimmed (off : List (NodeId × AttributeKey)) (n : Node P) :
    (n.trimmed off).id = n.id := by
  cases n <;> rfl

@[simp] theorem isText_trimmed (off : List (NodeId × AttributeKey)) (n : Node P) :
    (n.trimmed off).isText = n.isText := by
  cases n <;> rfl

@[simp] theorem tag?_trimmed (off : List (NodeId × AttributeKey)) (n : Node P) :
    (n.trimmed off).tag? = n.tag? := by
  cases n <;> rfl

theorem children_trimmed (off : List (NodeId × AttributeKey)) (n : Node P) :
    (n.trimmed off).children = n.children.map (trimmed off) := by
  cases n with
  | element i tag as cs => rw [trimmed_element]; rfl
  | text i s => rfl

theorem attributes_trimmed (off : List (NodeId × AttributeKey)) (n : Node P) :
    (n.trimmed off).attributes = Attribute.trim off n.id n.attributes := by
  cases n <;> rfl

@[simp] theorem ids_trimmed (off : List (NodeId × AttributeKey)) (n : Node P) :
    (n.trimmed off).ids = n.ids := by
  induction n with
  | element i tag as cs ih =>
    rw [trimmed_element, ids_element, ids_element, List.flatMap_map]
    congr 1
    exact List.flatMap_congr ih
  | text i s => rfl

theorem subtrees_trimmed (off : List (NodeId × AttributeKey)) (n : Node P) :
    (n.trimmed off).subtrees = n.subtrees.map (trimmed off) := by
  induction n with
  | element i tag as cs ih =>
    rw [trimmed_element, subtrees_element, subtrees_element, List.map_cons, trimmed_element,
      List.flatMap_map, List.map_flatMap]
    congr 1
    exact List.flatMap_congr ih
  | text i s => rfl

theorem map_trimmed (f : P → Q) (off : List (NodeId × AttributeKey)) (n : Node P) :
    (n.trimmed off).map f = (n.map f).trimmed off := by
  induction n with
  | element i tag as cs ih =>
    rw [trimmed_element, map_element, map_element, trimmed_element, Attribute.map_trim,
      List.map_map, List.map_map]
    congr 1
    exact List.map_congr_left ih
  | text i s => rfl

theorem map_id_trimmed (off : List (NodeId × AttributeKey)) (cs : List (Node P)) :
    (cs.map (trimmed off)).map id = cs.map id := by
  rw [List.map_map]
  exact List.map_congr_left fun c _ => id_trimmed off c

theorem trimmed_congr {off' : List (NodeId × AttributeKey)}
    (h : ∀ m ∈ n.subtrees, Attribute.trim off' m.id m.attributes
      = Attribute.trim off m.id m.attributes) : n.trimmed off' = n.trimmed off := by
  induction n with
  | element i tag as cs ih =>
    have hown := h _ (self_mem_subtrees _)
    rw [trimmed_element, trimmed_element, ← id_element i tag as cs]
    congr 1
    exact List.map_congr_left fun c hc => ih c hc fun m hm => h m (mem_subtrees_of_mem hc hm)
  | text i s => rfl

/-- Nothing is left out of a tree that has none of the elements. -/
theorem trimmed_eq_of_apart (h : ∀ q ∈ off, q.1 ∉ n.ids) : n.trimmed off = n.trimmed [] := by
  refine trimmed_congr fun m hm => ?_
  rw [Attribute.trim_nil]
  refine Attribute.trim_eq_firsts fun a _ hq => h _ hq ?_
  exact mem_ids_iff.mpr ⟨m, hm, rfl⟩

/-! ### Trimming a changed tree -/

theorem trimmed_modify {off' : List (NodeId × AttributeKey)} {f g : Node P → Node P}
    (hoff : ∀ y, y ≠ x → ∀ as : List (Attribute P),
      Attribute.trim off' y as = Attribute.trim off y as)
    (hfg : ∀ m ∈ t.subtrees, m.id = x → (f m).trimmed off' = g (m.trimmed off)) :
    (t.modify x f).trimmed off' = (t.trimmed off).modify x g := by
  induction t with
  | element i tag as cs ih =>
    by_cases hi : i = x
    · subst hi
      have hroot := hfg _ (self_mem_subtrees _) rfl
      rw [modify, if_pos rfl, hroot, trimmed_element]
      exact (modify_of_id_eq _ g).symm
    · rw [modify_element_of_ne hi, trimmed_element, trimmed_element, modify_element_of_ne hi,
        hoff i hi, List.map_map, List.map_map]
      congr 1
      refine List.map_congr_left fun c hc => ih c hc fun m hm => ?_
      exact hfg m (mem_subtrees_of_mem hc hm)
  | text i s =>
    by_cases hi : i = x
    · subst hi
      have hroot := hfg _ (self_mem_subtrees _) rfl
      rw [modify, if_pos rfl, hroot]
      exact (modify_of_id_eq _ g).symm
    · rw [modify, if_neg hi]
      exact (if_neg hi).symm

theorem trimmed_withChildren {f g : List (Node P) → List (Node P)}
    (h : (f n.children).map (trimmed off) = g (n.children.map (trimmed off))) :
    (n.withChildren f).trimmed off = (n.trimmed off).withChildren g := by
  cases n with
  | element i tag as cs =>
    rw [withChildren, trimmed_element, trimmed_element, withChildren]
    exact congrArg _ h
  | text i s => rfl

/-- Another list of keys may be left out, as long as it says the same of the nodes below. -/
theorem trimmed_withAttributes {off' : List (NodeId × AttributeKey)}
    {f g : List (Attribute P) → List (Attribute P)} (hn : n.ids.Nodup)
    (hoff : ∀ y, y ≠ n.id → ∀ as : List (Attribute P),
      Attribute.trim off' y as = Attribute.trim off y as)
    (h : Attribute.trim off' n.id (f n.attributes) = g (Attribute.trim off n.id n.attributes)) :
    (n.withAttributes f).trimmed off' = (n.trimmed off).withAttributes g := by
  cases n with
  | element i tag as cs =>
    rw [ids_element] at hn
    have hchildren : cs.map (trimmed off') = cs.map (trimmed off) := by
      refine List.map_congr_left fun c hc => trimmed_congr fun m hm => hoff m.id (fun e => ?_) _
      have hmc : i ∈ c.ids := mem_ids_iff.mpr ⟨m, hm, e⟩
      exact (List.nodup_cons.mp hn).1 (List.mem_flatMap.mpr ⟨c, hc, hmc⟩)
    rw [withAttributes, trimmed_element, trimmed_element, withAttributes, hchildren]
    exact congrArg (fun bs => element i tag bs _) h
  | text i s => rfl

theorem trimmed_withText (s : String) (n : Node P) :
    (n.withText s).trimmed off = (n.trimmed off).withText s := by
  cases n <;> rfl

end Node

/-! ### Trimmed patches -/

namespace Patch

variable {p : Patch P} {n t : Node P}

/-- The patch with the trees in it trimmed. -/
def trimmed : Patch P → Patch P
  | addChild parent index child => addChild parent index (child.trimmed [])
  | removeChild parent child => removeChild parent (child.trimmed [])
  | replaceChild parent old new => replaceChild parent (old.trimmed []) (new.trimmed [])
  | addText parent index node => addText parent index (node.trimmed [])
  | p => p

/-- The key that a patch removes, with its element. -/
def removed : Patch P → List (NodeId × AttributeKey)
  | removeAttribute x a => [(x, a.key)]
  | _ => []

theorem mem_removed_iff {q : NodeId × AttributeKey} :
    q ∈ p.removed ↔ ∃ a, p = removeAttribute q.1 a ∧ a.key = q.2 := by
  cases p with
  | removeAttribute x a =>
    obtain ⟨y, k⟩ := q
    simp [removed, eq_comm, and_comm]
  | _ => simp [removed]

theorem removed_eq_nil_or (p : Patch P) : p.removed = [] ∨ ∃ x a, p = removeAttribute x a := by
  cases p with
  | removeAttribute x a => exact Or.inr ⟨x, a, rfl⟩
  | _ => exact Or.inl rfl

/-- The patch keeps off the keys that are left out: it neither brings in an element with such a key,
nor changes or adds an attribute that has one. A change does not change the key. -/
def Spares (off : List (NodeId × AttributeKey)) : Patch P → Prop
  | addChild _ _ c => ∀ q ∈ off, q.1 ∉ c.ids
  | addText _ _ c => ∀ q ∈ off, q.1 ∉ c.ids
  | replaceChild _ _ new => ∀ q ∈ off, q.1 ∉ new.ids
  | updateAttribute x old new => new.key = old.key ∧ (x, old.key) ∉ off
  | addAttribute x a => (x, a.key) ∉ off
  | _ => True

theorem Spares.mono {off' : List (NodeId × AttributeKey)} (h : p.Spares off) (hs : off' ⊆ off) :
    p.Spares off' := by
  cases p with
  | addChild y i c => exact fun q hq => h q (hs hq)
  | addText y i c => exact fun q hq => h q (hs hq)
  | replaceChild y old new => exact fun q hq => h q (hs hq)
  | updateAttribute y old new => exact ⟨h.1, fun hq => h.2 (hs hq)⟩
  | addAttribute y a => exact fun hq => h (hs hq)
  | _ => exact trivial

theorem spares_map_iff (f : P → Q) : (p.map f).Spares off ↔ p.Spares off := by
  cases p <;> simp [map, Spares, Node.ids_map]

theorem removed_map (f : P → Q) (p : Patch P) : (p.map f).removed = p.removed := by
  cases p <;> simp [map, removed]

theorem trimmed_map (f : P → Q) (p : Patch P) : (p.map f).trimmed = p.trimmed.map f := by
  cases p <;> simp [map, trimmed, Node.map_trimmed]

@[simp] theorem target_trimmed (p : Patch P) : p.trimmed.target = p.target := by
  cases p <;> rfl

@[simp] theorem replaced_trimmed (p : Patch P) : p.trimmed.replaced = p.replaced := by
  cases p <;> simp [trimmed, replaced]

theorem entering_trimmed (p : Patch P) :
    p.trimmed.entering = p.entering.map (Node.trimmed []) := by
  cases p <;> rfl

theorem trimmed_addition (y : NodeId) (i : Nat) (c : Node P) :
    (addition y i c).trimmed = addition y i (c.trimmed []) := by
  unfold addition
  rw [Node.isText_trimmed]
  split <;> rfl

theorem trimmed_removal (y : NodeId) (c : Node P) :
    (removal y c).trimmed = removal y (c.trimmed []) := by
  unfold removal
  rw [Node.isText_trimmed, Node.id_trimmed]
  split <;> rfl

/-! ### Patches that fit -/

theorem allowed_of_trimmed {n : Node Q} (hs : p.Spares off)
    (h : p.trimmed.Allowed (n.trimmed off)) (hp : p.target = some n.id) : p.Allowed n := by
  cases p with
  | addChild y i c => simpa [trimmed, Allowed, Node.children_trimmed] using h
  | addText y i c => simpa [trimmed, Allowed, Node.children_trimmed] using h
  | removeChild y c => simpa [trimmed, Allowed, Node.children_trimmed] using h
  | removeText y z => simpa [trimmed, Allowed, Node.children_trimmed] using h
  | replaceChild y old new => simpa [trimmed, Allowed, Node.children_trimmed] using h
  | reorderChildren y order =>
    simpa [trimmed, Allowed, Node.children_trimmed, Function.comp_def] using h
  | updateText y s => simpa [trimmed, Allowed] using h
  | updateAttribute y old new =>
    have hk : old.key ∈ (n.trimmed off).attributes.map Attribute.key := h
    rw [Node.attributes_trimmed, Attribute.mem_keys_trim_iff] at hk
    exact hk.2
  | removeAttribute y a =>
    have hk : a.key ∈ (n.trimmed off).attributes.map Attribute.key := h
    rw [Node.attributes_trimmed, Attribute.mem_keys_trim_iff] at hk
    exact hk.2
  | addAttribute y a =>
    obtain rfl : y = n.id := Option.some.inj hp
    obtain ⟨ht, hk⟩ := h
    rw [Node.isText_trimmed] at ht
    rw [Node.attributes_trimmed, Attribute.mem_keys_trim_iff] at hk
    exact ⟨ht, fun hm => hk ⟨hs, hm⟩⟩

/-- What the trimmed tree takes, the tree takes. -/
theorem fits_of_trimmed {t : Node Q} (hs : p.Spares off) (h : p.trimmed.Fits (t.trimmed off)) :
    p.Fits t := by
  have hentering : ∀ c ∈ p.entering, c.trimmed [] ∈ p.trimmed.entering := by
    intro c hc
    rw [entering_trimmed]
    exact Option.mem_map_of_mem _ hc
  refine ⟨?_, fun c hc => ?_, fun c hc => ?_, fun c hc y hy hyt => ?_⟩
  · have hr := h.reaches
    unfold Reaches at hr ⊢
    rw [target_trimmed, replaced_trimmed, Node.id_trimmed] at hr
    cases hp : p.target with
    | none =>
      rw [hp] at hr
      exact hr
    | some y =>
      rw [hp] at hr
      obtain ⟨m, hm, hid, hallowed⟩ := hr
      rw [Node.subtrees_trimmed, List.mem_map] at hm
      obtain ⟨n, hn, rfl⟩ := hm
      rw [Node.id_trimmed] at hid
      exact ⟨n, hn, hid, allowed_of_trimmed hs hallowed (hid ▸ hp)⟩
  · exact Node.ids_trimmed [] c ▸ h.assigned _ (hentering c hc)
  · exact Node.ids_trimmed [] c ▸ h.nodup _ (hentering c hc)
  · obtain ⟨m, hm, hreplaced, hym⟩ := h.free _ (hentering c hc) y (by rwa [Node.ids_trimmed])
      (by rwa [Node.ids_trimmed])
    rw [Node.subtrees_trimmed, List.mem_map] at hm
    obtain ⟨n, hn, rfl⟩ := hm
    rw [replaced_trimmed, Node.id_trimmed] at hreplaced
    exact ⟨n, hn, hreplaced, by rwa [Node.ids_trimmed] at hym⟩

/-- No key is removed that is left out already. -/
theorem removed_not_mem {t : Node Q} (h : p.trimmed.Fits (t.trimmed off)) :
    ∀ q ∈ p.removed, q ∉ off := by
  intro q hq
  obtain ⟨a, rfl, hkey⟩ := mem_removed_iff.mp hq
  obtain ⟨m, hm, hid, hallowed⟩ := h.reaches
  rw [Node.subtrees_trimmed, List.mem_map] at hm
  obtain ⟨n, hn, rfl⟩ := hm
  have hk : a.key ∈ (n.trimmed off).attributes.map Attribute.key := hallowed
  rw [Node.attributes_trimmed, Attribute.mem_keys_trim_iff] at hk
  rw [Node.id_trimmed] at hid
  obtain ⟨y, k⟩ := q
  dsimp only at hid hkey
  subst hid hkey
  exact hk.1

/-! ### Patches of trimmed trees -/

theorem trimmed_act (hs : p.Spares off) (hp : p.target = some n.id) (hallowed : p.Allowed n)
    (hn : n.ids.Nodup) :
    (p.act n).trimmed (off ++ p.removed) = p.trimmed.act (n.trimmed off) := by
  have hfilter : ∀ (z : NodeId) (cs : List (Node P)),
      (cs.filter fun c => c.id ≠ z).map (Node.trimmed off)
        = (cs.map (Node.trimmed off)).filter fun c => c.id ≠ z := by
    intro z cs
    rw [List.filter_map]
    simp [Function.comp_def]
  rcases p.removed_eq_nil_or with hnone | ⟨y, a, rfl⟩
  · rw [hnone, List.append_nil]
    cases p with
    | addChild y i c =>
      refine Node.trimmed_withChildren ?_
      rw [List.map_insertIdx, Node.trimmed_eq_of_apart hs]
    | addText y i c =>
      refine Node.trimmed_withChildren ?_
      rw [List.map_insertIdx, Node.trimmed_eq_of_apart hs]
    | removeChild y c =>
      refine Node.trimmed_withChildren ?_
      rw [hfilter, Node.id_trimmed]
    | removeText y z => exact Node.trimmed_withChildren (hfilter z _)
    | replaceChild y old new =>
      refine Node.trimmed_withChildren ?_
      rw [List.map_map, List.map_map]
      refine List.map_congr_left fun c _ => ?_
      simp only [Function.comp_apply, Node.id_trimmed]
      split
      · exact Node.trimmed_eq_of_apart hs
      · rfl
    | reorderChildren y order =>
      refine Node.trimmed_withChildren ?_
      rw [List.map_filterMap]
      congr 1
      funext z
      rw [List.find?_map]
      congr 2
      funext c
      simp
    | updateText y s => exact Node.trimmed_withText s n
    | updateAttribute y old new =>
      obtain rfl : y = n.id := Option.some.inj hp
      exact Node.trimmed_withAttributes hn (fun _ _ _ => rfl) (Attribute.trim_put hs.1 hs.2)
    | addAttribute y a =>
      obtain rfl : y = n.id := Option.some.inj hp
      exact Node.trimmed_withAttributes hn (fun _ _ _ => rfl) (Attribute.trim_concat hallowed.2 hs)
    | removeAttribute y a => exact absurd hnone (List.cons_ne_nil _ _)
  · obtain rfl : y = n.id := Option.some.inj hp
    exact Node.trimmed_withAttributes hn (fun _ hne _ => Attribute.trim_append_of_ne hne _)
      Attribute.trim_drop

/-- Trimming what a patch makes of a tree is the same as editing the trimmed tree, but that a
removed key is left out from then on. -/
theorem trimmed_edit (hs : p.Spares off) (hp : p.Reaches t) (ht : t.ids.Nodup) :
    (p.edit t).trimmed (off ++ p.removed) = p.trimmed.edit (t.trimmed off) := by
  cases hx : p.target with
  | some x =>
    rw [Reaches, hx] at hp
    obtain ⟨n, hn, rfl, hallowed⟩ := hp
    rw [edit_of_target hx, edit_of_target ((target_trimmed p).trans hx)]
    refine Node.trimmed_modify (fun y hy as => ?_) fun m hm hid => ?_
    · rcases p.removed_eq_nil_or with hnone | ⟨z, a, rfl⟩
      · rw [hnone, List.append_nil]
      · obtain rfl : z = n.id := Option.some.inj hx
        exact Attribute.trim_append_of_ne hy as
    · obtain rfl := Node.eq_of_id_eq ht hm hn hid
      exact trimmed_act hs hx hallowed (Node.nodup_ids_of_mem ht hn)
  | none =>
    -- only the root is replaced without a target
    cases p with
    | replaceChild parent old new =>
      obtain rfl : parent = none := hx
      have hnone : off ++ (replaceChild none old new).removed = off := List.append_nil off
      rw [hnone]
      exact Node.trimmed_eq_of_apart hs
    | _ => exact nomatch hx

end Patch

end ViewLoop
