import ViewLoop.Proofs.ChildPatches
import ViewLoop.Proofs.FirstAttributes
import ViewLoop.Proofs.Likeness

/-!
# When a difference is silent

A difference has no patches exactly when the new tree is the old one, up to the order of attributes
inside elements and up to the values of identity attributes, which belong to alignment
(`Difference.patches_eq_nil_iff`). Neither tree has to be aligned: it is enough that siblings have
different identities and the attributes of an element different keys.
-/

namespace ViewLoop

variable {P : Type}

/-! ### Trees without identity tokens -/

namespace Attribute

/-- The attribute without its value if it shows an identity. -/
def unlabelled (a : Attribute P) : Attribute P :=
  if a.isIdentity then .plain identityName "" else a

@[simp] theorem key_unlabelled (a : Attribute P) : a.unlabelled.key = a.key := by
  unfold unlabelled
  split
  · rename_i h
    exact (key_of_isIdentity h .unassigned).symm
  · rfl

/-- Without their identity tokens two attributes are equal if they are equal or both show one. -/
theorem unlabelled_eq_iff {a b : Attribute P} :
    a.unlabelled = b.unlabelled ↔ a.key = b.key ∧ (b.isIdentity = true ∨ a = b) := by
  constructor
  · intro h
    have hkey : a.key = b.key := by rw [← key_unlabelled a, h, key_unlabelled]
    refine ⟨hkey, ?_⟩
    cases hb : b.isIdentity with
    | true => exact Or.inl rfl
    | false =>
      have ha : a.isIdentity = false := (isIdentity_eq_of_key hkey).trans hb
      exact Or.inr (by simpa [unlabelled, ha, hb] using h)
  · rintro ⟨hkey, hb | rfl⟩
    · have ha : a.isIdentity = true := (isIdentity_eq_of_key hkey).trans hb
      rw [unlabelled, unlabelled, if_pos ha, if_pos hb]
    · rfl

theorem nodup_unlabelled {as : List (Attribute P)} (h : (as.map key).Nodup) :
    (as.map unlabelled).Nodup := by
  have hkeys : (as.map unlabelled).map key = as.map key := by simp [Function.comp_def]
  exact List.Nodup.of_map _ (hkeys ▸ h)

/-- Two lists have the same attributes if every old key is in the new list and every new attribute
is an old one. -/
theorem perm_unlabelled_iff {as bs : List (Attribute P)} (ha : (as.map key).Nodup)
    (hb : (bs.map key).Nodup) :
    (as.map unlabelled).Perm (bs.map unlabelled)
      ↔ (∀ a ∈ as, a.key ∈ bs.map key) ∧ ∀ b ∈ bs, ∃ a ∈ as, a.unlabelled = b.unlabelled := by
  rw [List.perm_ext_iff_of_nodup (nodup_unlabelled ha) (nodup_unlabelled hb)]
  constructor
  · intro h
    constructor
    · intro a ham
      obtain ⟨b, hbm, hba⟩ := List.mem_map.mp ((h _).mp (List.mem_map_of_mem ham))
      exact List.mem_map.mpr ⟨b, hbm, (unlabelled_eq_iff.mp hba).1⟩
    · intro b hbm
      exact List.mem_map.mp ((h _).mpr (List.mem_map_of_mem hbm))
  · rintro ⟨hgone, hcome⟩ x
    constructor
    · intro hx
      obtain ⟨a, ham, rfl⟩ := List.mem_map.mp hx
      obtain ⟨b, hbm, hkey⟩ := List.mem_map.mp (hgone a ham)
      -- the old attribute that the new one of the key comes from is the only one of the key
      obtain ⟨c, hc, hcb⟩ := hcome b hbm
      have hca : c.key = a.key := (unlabelled_eq_iff.mp hcb).1.trans hkey
      rw [← List.inj_on_of_nodup_map ha hc ham hca]
      exact List.mem_map.mpr ⟨b, hbm, hcb.symm⟩
    · intro hx
      obtain ⟨b, hbm, rfl⟩ := List.mem_map.mp hx
      exact List.mem_map.mpr (hcome b hbm)

end Attribute

namespace Node

mutual

/-- The tree without the values of its identity attributes. -/
def unlabelled : Node P → Node P
  | element id tag attributes children =>
    element id tag (attributes.map Attribute.unlabelled) (unlabelledForest children)
  | text id s => text id s

def unlabelledForest : List (Node P) → List (Node P)
  | [] => []
  | c :: cs => c.unlabelled :: unlabelledForest cs

end

theorem unlabelledForest_eq_map (cs : List (Node P)) :
    unlabelledForest cs = cs.map unlabelled := by
  induction cs with
  | nil => rfl
  | cons c cs ih => simp only [unlabelledForest, List.map_cons, ih]

theorem unlabelled_element (i : NodeId) (tag : String) (as : List (Attribute P))
    (cs : List (Node P)) :
    (element i tag as cs).unlabelled
      = element i tag (as.map Attribute.unlabelled) (cs.map unlabelled) := by
  rw [unlabelled, unlabelledForest_eq_map]

@[simp] theorem id_unlabelled (n : Node P) : n.unlabelled.id = n.id := by
  cases n <;> rfl

@[simp] theorem tag?_unlabelled (n : Node P) : n.unlabelled.tag? = n.tag? := by
  cases n <;> rfl

/-- Siblings have different identities, and the attributes of an element different keys. -/
structure Unambiguous (n : Node P) : Prop where
  siblings : ∀ m ∈ n.subtrees, (m.children.map id).Nodup
  attributes : ∀ m ∈ n.subtrees, (m.attributes.map Attribute.key).Nodup

theorem Unambiguous.of_mem {n m : Node P} (h : n.Unambiguous) (hm : m ∈ n.subtrees) :
    m.Unambiguous where
  siblings _ hk := h.siblings _ (mem_subtrees_trans hm hk)
  attributes _ hk := h.attributes _ (mem_subtrees_trans hm hk)

end Node

namespace Difference

variable {as bs : List (Attribute P)} {cs ds : List (Node P)} {i : NodeId} {old new o n : Node P}

/-! ### Siblings -/

/-- Two lists of siblings are related in pairs if they have the same identities in the same order
and every couple is related. -/
theorem forall₂_iff_couples {R : Node P → Node P → Prop} (hR : ∀ c d, R c d → c.id = d.id)
    (hc : (cs.map Node.id).Nodup) :
    List.Forall₂ R cs ds
      ↔ cs.map Node.id = ds.map Node.id ∧ ∀ q ∈ couples cs ds, R q.1 q.2 := by
  constructor
  · intro h
    have hids : cs.map Node.id = ds.map Node.id := by
      rw [← List.forall₂_eq_eq_eq, List.forall₂_map_left_iff, List.forall₂_map_right_iff]
      exact h.imp hR
    refine ⟨hids, fun q hq => ?_⟩
    obtain ⟨hcm, hdm, hid⟩ := (mem_couples_iff hc).mp hq
    obtain ⟨d, hd, hr⟩ := Node.exists_of_forall₂ h hcm
    have hds : (ds.map Node.id).Nodup := hids ▸ hc
    rwa [List.inj_on_of_nodup_map hds hdm hd (hid.symm.trans (hR _ _ hr))]
  · rintro ⟨hids, h⟩
    rw [List.forall₂_iff_get]
    have hlen : cs.length = ds.length := by simpa using congrArg List.length hids
    refine ⟨hlen, fun k hk hk' => h (cs.get ⟨k, hk⟩, ds.get ⟨k, hk'⟩) ((mem_couples_iff hc).mpr ?_)⟩
    refine ⟨List.get_mem _ _, List.get_mem _ _, ?_⟩
    have hget := congrArg (fun l => l[k]?) hids
    simpa [hk, hk'] using hget

/-- No child goes, comes or changes its place exactly if the identities are the same in the same
order. -/
theorem siblings_eq_nil_iff (hc : (cs.map Node.id).Nodup) (hd : (ds.map Node.id).Nodup) :
    siblingRemovals i cs ds = [] ∧ reordering i cs ds = [] ∧ siblingAdditions i cs ds = []
      ↔ cs.map Node.id = ds.map Node.id := by
  have hgone : siblingRemovals i cs ds = [] ↔ ∀ x ∈ cs.map Node.id, x ∈ ds.map Node.id := by
    rw [siblingRemovals_eq i hc, List.map_eq_nil_iff, List.filter_eq_nil_iff]
    simp
  have hcome : siblingAdditions i cs ds = [] ↔ ∀ x ∈ ds.map Node.id, x ∈ cs.map Node.id := by
    have hsnd : (arrived cs [] 0 ds).map Prod.snd = ds.filter fun d => d.id ∉ cs.map Node.id :=
      map_snd_arrived hd (fun _ _ => List.not_mem_nil) 0
    rw [siblingAdditions, List.map_eq_nil_iff, ← List.map_eq_nil_iff (f := Prod.snd), hsnd,
      List.filter_eq_nil_iff]
    simp
  rw [hgone, hcome, reordering_eq i hc hd, ite_eq_left_iff]
  constructor
  · rintro ⟨hcd, horder, hdc⟩
    have hsame := of_not_not fun h => List.cons_ne_nil _ _ (horder h)
    rw [List.filter_eq_self.mpr fun x hx => decide_eq_true (hcd x hx),
      List.filter_eq_self.mpr fun x hx => decide_eq_true (hdc x hx)] at hsame
    exact hsame
  · intro h
    simp [h]

section Silence

variable [DecidableEq P]

/-! ### Attributes -/

theorem attributePatch_eq_none_iff (ha : (as.map Attribute.key).Nodup) {b : Attribute P} :
    attributePatch i as b = none ↔ ∃ a ∈ as, a.unlabelled = b.unlabelled := by
  unfold attributePatch
  cases hw : withKey as b.key with
  | none =>
    have hnone := withKey_eq_none_iff.mp hw
    refine iff_of_false (by simp) fun ⟨a, ham, hab⟩ => hnone ?_
    exact List.mem_map.mpr ⟨a, ham, (Attribute.unlabelled_eq_iff.mp hab).1⟩
  | some a =>
    obtain ⟨ham, hkey⟩ := (withKey_eq_some_iff ha).mp hw
    have hpatch : (if b.isIdentity = true ∨ a = b then none
        else some (Patch.updateAttribute i a b)) = none ↔ a.unlabelled = b.unlabelled := by
      rw [ite_eq_left_iff, Attribute.unlabelled_eq_iff, and_iff_right hkey]
      simp [or_iff_not_imp_left]
    refine hpatch.trans ⟨fun h => ⟨a, ham, h⟩, fun ⟨c, hc, hcb⟩ => ?_⟩
    have hckey : c.key = a.key := (Attribute.unlabelled_eq_iff.mp hcb).1.trans hkey.symm
    rw [← List.inj_on_of_nodup_map ha hc ham hckey, hcb]

/-- No attribute is patched exactly if the two elements have the same attributes in some order. -/
theorem attributePatches_eq_nil_iff (ha : (as.map Attribute.key).Nodup)
    (hb : (bs.map Attribute.key).Nodup) :
    attributePatches i as bs = []
      ↔ (as.map Attribute.unlabelled).Perm (bs.map Attribute.unlabelled) := by
  have hgone : ((firsts [] as).filter fun a => (withKey bs a.key).isNone).map
      (Patch.removeAttribute i ·) = [] ↔ ∀ a ∈ as, a.key ∈ bs.map Attribute.key := by
    rw [firsts_eq ha fun _ _ => List.not_mem_nil, List.map_eq_nil_iff, List.filter_eq_nil_iff]
    refine forall₂_congr fun a _ => ?_
    rw [Option.isNone_iff_eq_none, withKey_eq_none_iff, not_not]
  have hcome : (firsts [] bs).filterMap (attributePatch i as) = []
      ↔ ∀ b ∈ bs, ∃ a ∈ as, a.unlabelled = b.unlabelled := by
    rw [firsts_eq hb fun _ _ => List.not_mem_nil, List.filterMap_eq_nil_iff]
    exact forall₂_congr fun b _ => attributePatch_eq_none_iff ha
  rw [attributePatches, List.append_eq_nil_iff, hgone, hcome, Attribute.perm_unlabelled_iff ha hb]

/-- An element is not changed against itself, even if it repeats an attribute. -/
theorem attributePatches_self (i : NodeId) (as : List (Attribute P)) :
    attributePatches i as as = [] := by
  rw [attributePatches, List.append_eq_nil_iff, List.map_eq_nil_iff, List.filter_eq_nil_iff,
    List.filterMap_eq_nil_iff]
  constructor
  · intro a ha
    have hkey : a.key ∈ as.map Attribute.key := List.mem_map_of_mem (firsts_subset [] as ha)
    rwa [Option.isNone_iff_eq_none, withKey_eq_none_iff, not_not]
  · intro a ha
    have hfirst : withKey as a.key = some a := by
      have hw : withKey (firsts [] as) a.key = some a :=
        (withKey_eq_some_iff (nodup_keys_firsts [] as)).mpr ⟨ha, rfl⟩
      rwa [withKey_firsts List.not_mem_nil] at hw
    simp [attributePatch, hfirst]

/-! ### Trees -/

theorem all_inPlace_eq_nil_iff (parent : Option NodeId) (i : NodeId) (tag : String)
    (hc : (cs.map Node.id).Nodup) (hd : (ds.map Node.id).Nodup) :
    (node parent (.element i tag as cs) (.element i tag bs ds)).all = []
      ↔ attributePatches i as bs = [] ∧ cs.map Node.id = ds.map Node.id
        ∧ ∀ q ∈ couples cs ds, (node (some i) q.1 q.2).all = [] := by
  rw [← List.perm_nil, (all_node_inPlace parent i i tag as bs cs hd).congr_left, List.perm_nil,
    ← siblings_eq_nil_iff (i := i) hc hd, ← List.flatMap_eq_nil_iff]
  simp only [List.append_eq_nil_iff]
  tauto

theorem all_node_eq_nil_iff (parent : Option NodeId) (hid : o.id = n.id) (ho : o.Unambiguous)
    (hn : n.Unambiguous) : (node parent o n).all = [] ↔ o.unlabelled.Alike n.unlabelled := by
  refine induct_of_id_eq (motive := fun parent o n => o.Unambiguous → n.Unambiguous →
    ((node parent o n).all = [] ↔ o.unlabelled.Alike n.unlabelled)) ?_ ?_ ?_ parent hid ho hn
  · intro parent i s u _ _
    rw [node_texts, Node.unlabelled, Node.unlabelled, Node.alike_text_iff, Node.text.injEq]
    split
    · rename_i hs
      simp [Changes.all, hs]
    · rename_i hs
      simp [Changes.all, Ne.symm hs]
  · intro parent o n hs _ _
    rw [node_apart parent hs]
    refine iff_of_false (by simp [Changes.all, Changes.replacement]) fun h => hs ?_
    have htag := h.tag?_eq
    rwa [Node.tag?_unlabelled, Node.tag?_unlabelled] at htag
  · intro parent i tag as bs cs ds ih ho hn
    have hc : (cs.map Node.id).Nodup := ho.siblings _ (Node.self_mem_subtrees _)
    have hd : (ds.map Node.id).Nodup := hn.siblings _ (Node.self_mem_subtrees _)
    have ha : (as.map Attribute.key).Nodup := ho.attributes _ (Node.self_mem_subtrees _)
    have hb : (bs.map Attribute.key).Nodup := hn.attributes _ (Node.self_mem_subtrees _)
    have hcouples : (∀ q ∈ couples cs ds, (node (some i) q.1 q.2).all = [])
        ↔ ∀ q ∈ couples cs ds, q.1.unlabelled.Alike q.2.unlabelled := by
      refine forall₂_congr fun q hq => ?_
      obtain ⟨hcm, hdm, hcd⟩ := (mem_couples_iff hc).mp hq
      exact ih _ hcm _ hdm hcd (ho.of_mem (Node.mem_subtrees_child i tag as hcm))
        (hn.of_mem (Node.mem_subtrees_child i tag bs hdm))
    have hpairs : List.Forall₂ (fun c d => c.unlabelled.Alike d.unlabelled) cs ds
        ↔ cs.map Node.id = ds.map Node.id
          ∧ ∀ q ∈ couples cs ds, q.1.unlabelled.Alike q.2.unlabelled :=
      forall₂_iff_couples (fun c d h => by simpa using h.id_eq) hc
    rw [all_inPlace_eq_nil_iff parent i tag hc hd, hcouples, attributePatches_eq_nil_iff ha hb,
      ← hpairs, Node.unlabelled_element, Node.unlabelled_element, Node.alike_elements_iff,
      List.forall₂_map_left_iff, List.forall₂_map_right_iff]

theorem all_node_self (parent : Option NodeId)
    (ho : ∀ m ∈ o.subtrees, (m.children.map Node.id).Nodup) : (node parent o o).all = [] := by
  induction o generalizing parent with
  | text i s =>
    rw [node_texts, if_pos rfl]
    rfl
  | element i tag as cs ih =>
    have hc : (cs.map Node.id).Nodup := ho _ (Node.self_mem_subtrees _)
    rw [all_inPlace_eq_nil_iff parent i tag hc hc]
    refine ⟨attributePatches_self i as, rfl, fun q hq => ?_⟩
    obtain ⟨hcm, hdm, hcd⟩ := (mem_couples_iff hc).mp hq
    rw [← List.inj_on_of_nodup_map hc hcm hdm hcd]
    have hmem := Node.mem_subtrees_child i tag as hcm
    exact ih q.1 hcm (some i) fun m hm => ho m (Node.mem_subtrees_trans hmem hm)

/-- Where nothing is replaced nothing moves out of a replaced tree. -/
theorem patches_eq_nil_iff_all : patches old new = [] ↔ (changes old new).all = [] := by
  simp only [patches, Changes.all, List.append_eq_nil_iff]
  constructor
  · rintro ⟨⟨⟨hr, -⟩, hp⟩, hu⟩
    exact ⟨⟨hr, hp⟩, hu⟩
  · rintro ⟨⟨hr, hp⟩, hu⟩
    exact ⟨⟨⟨hr, by simp [hp]⟩, hp⟩, hu⟩

theorem patches_self (ho : ∀ m ∈ old.subtrees, (m.children.map Node.id).Nodup) :
    patches old old = [] := by
  rw [patches_eq_nil_iff_all, changes, if_pos rfl, all_node_self none ho]

/-- Nothing is patched exactly if the new tree is the old one, up to the order of attributes inside
elements and up to the values of identity attributes: the same identities, kinds, tags and texts in
the same places, and the same attributes with the same values, handler identities and payloads. -/
theorem patches_eq_nil_iff (ho : old.Unambiguous) (hn : new.Unambiguous) :
    patches old new = [] ↔ old.unlabelled.Alike new.unlabelled := by
  by_cases hid : old.id = new.id
  · rw [patches_eq_nil_iff_all, changes, if_pos hid, all_node_eq_nil_iff none hid ho hn]
  · rw [patches_eq_nil_iff_all, changes, if_neg hid]
    refine iff_of_false (by simp [Changes.all, Changes.replacement]) fun h => hid ?_
    simpa using h.id_eq

/-- The two lists of a page have items of the same identities. A token and the order of attributes
may differ, the payload of a handler may not. -/
theorem patches_eq_nil_iff_of_lists :
    let item : Node Nat := .element (.generated 1) "li" [] [.text (.generated 2) "x"]
    let lists (as : List (Attribute Nat)) : Node Nat := .element (.keyed "page") "main" []
      [.element (.keyed "old") "ul" as [item], .element (.keyed "new") "ul" [] [item]]
    let click (payload : Nat) : Attribute Nat := .handler ⟨"click", ⟨1⟩, payload⟩
    let old := lists [.plain "id" "v1", .plain "class" "wide", click 7]
    let shuffled := lists [click 7, .plain "id" "v9", .plain "class" "wide"]
    let other := lists [.plain "id" "v1", .plain "class" "wide", click 8]
    (old.Unambiguous ∧ shuffled.Unambiguous ∧ patches old shuffled = []
        ∧ old.unlabelled.Alike shuffled.unlabelled)
      ∧ other.Unambiguous ∧ patches old other ≠ [] ∧ ¬old.unlabelled.Alike other.unlabelled := by
  intro item lists click old shuffled other
  have ho : old.Unambiguous := ⟨by decide, by decide⟩
  have hs : shuffled.Unambiguous := ⟨by decide, by decide⟩
  have hother : other.Unambiguous := ⟨by decide, by decide⟩
  have hsilent : patches old shuffled = [] := by decide
  have hloud : patches old other ≠ [] := by decide
  exact ⟨⟨ho, hs, hsilent, (patches_eq_nil_iff ho hs).mp hsilent⟩, hother, hloud,
    fun h => hloud ((patches_eq_nil_iff ho hother).mpr h)⟩

end Silence

end Difference

end ViewLoop
