import Mathlib.Data.List.Forall2
import ViewLoop.Proofs.Context

/-!
# Likeness

Two trees are alike if they differ in the order of attributes inside elements at most. A surface
puts a new attribute at the end, so what it shows is like the tree it is meant to show and need
not be equal to it. Trees that are alike have the same identities in the same places.
-/

namespace ViewLoop.Node

variable {P Q : Type}

mutual

/-- Equality up to the order of attributes inside elements. -/
def Alike : Node P → Node P → Prop
  | element i tag as cs, n =>
    match n with
    | element j other bs ds => i = j ∧ tag = other ∧ as.Perm bs ∧ AlikeForest cs ds
    | text .. => False
  | text i s, n => n = text i s

def AlikeForest : List (Node P) → List (Node P) → Prop
  | [], ds => ds = []
  | c :: cs, ds =>
    match ds with
    | [] => False
    | d :: ds => Alike c d ∧ AlikeForest cs ds

end

theorem alikeForest_iff {cs ds : List (Node P)} :
    AlikeForest cs ds ↔ List.Forall₂ Alike cs ds := by
  induction cs generalizing ds with
  | nil => exact List.forall₂_nil_left_iff.symm
  | cons c cs ih =>
    cases ds with
    | nil => exact ⟨False.elim, fun h => nomatch h⟩
    | cons d ds =>
      have hcons : AlikeForest (c :: cs) (d :: ds) ↔ c.Alike d ∧ AlikeForest cs ds := Iff.rfl
      rw [hcons, ih, List.forall₂_cons]

theorem alike_element_iff {i : NodeId} {tag : String} {as : List (Attribute P)}
    {cs : List (Node P)} {n : Node P} :
    (element i tag as cs).Alike n
      ↔ ∃ bs ds, n = element i tag bs ds ∧ as.Perm bs ∧ List.Forall₂ Alike cs ds := by
  cases n with
  | element j other bs ds =>
    have helement : (element i tag as cs).Alike (element j other bs ds)
        ↔ i = j ∧ tag = other ∧ as.Perm bs ∧ AlikeForest cs ds := Iff.rfl
    rw [helement, alikeForest_iff]
    constructor
    · rintro ⟨rfl, rfl, hp, hf⟩
      exact ⟨bs, ds, rfl, hp, hf⟩
    · rintro ⟨_, _, heq, hp, hf⟩
      obtain ⟨rfl, rfl, rfl, rfl⟩ := element.inj heq
      exact ⟨rfl, rfl, hp, hf⟩
  | text j s => exact ⟨False.elim, fun ⟨_, _, heq, _⟩ => nomatch heq⟩

theorem alike_elements_iff {i : NodeId} {tag : String} {as bs : List (Attribute P)}
    {cs ds : List (Node P)} : (element i tag as cs).Alike (element i tag bs ds)
      ↔ as.Perm bs ∧ List.Forall₂ Alike cs ds := by
  simp [alike_element_iff]

@[simp] theorem alike_text_iff {i : NodeId} {s : String} {n : Node P} :
    (text i s).Alike n ↔ n = text i s := Iff.rfl

theorem alike_element {i : NodeId} {tag : String} {as bs : List (Attribute P)}
    {cs ds : List (Node P)} (ha : as.Perm bs) (hc : List.Forall₂ Alike cs ds) :
    (element i tag as cs).Alike (element i tag bs ds) :=
  alike_element_iff.mpr ⟨bs, ds, rfl, ha, hc⟩

/-- Both members of a pair come from the lists that are paired. -/
theorem forall₂_mem {α β : Type} {R : α → β → Prop} {as : List α} {bs : List β}
    (h : List.Forall₂ R as bs) : List.Forall₂ (fun a b => a ∈ as ∧ b ∈ bs ∧ R a b) as bs := by
  induction h with
  | nil => exact .nil
  | cons hd _ tail =>
    refine .cons ⟨List.mem_cons_self, List.mem_cons_self, hd⟩ (tail.imp ?_)
    rintro a b ⟨ha, hb, hr⟩
    exact ⟨List.mem_cons_of_mem _ ha, List.mem_cons_of_mem _ hb, hr⟩

theorem exists_of_forall₂ {α β : Type} {R : α → β → Prop} {as : List α} {bs : List β}
    (h : List.Forall₂ R as bs) {a : α} (ha : a ∈ as) : ∃ b ∈ bs, R a b := by
  induction h with
  | nil => exact absurd ha List.not_mem_nil
  | cons hd _ tail =>
    rcases List.mem_cons.mp ha with rfl | ha
    · exact ⟨_, List.mem_cons_self, hd⟩
    · obtain ⟨b, hb, hr⟩ := tail ha
      exact ⟨b, List.mem_cons_of_mem _ hb, hr⟩

@[refl] theorem Alike.refl (n : Node P) : n.Alike n := by
  induction n with
  | element i tag as cs ih => exact alike_element (.refl as) (List.forall₂_same.mpr ih)
  | text i s => rfl

theorem Alike.symm {n m : Node P} (h : n.Alike m) : m.Alike n := by
  induction n generalizing m with
  | element i tag as cs ih =>
    obtain ⟨bs, ds, rfl, hp, hf⟩ := alike_element_iff.mp h
    refine alike_element hp.symm ((forall₂_mem hf).flip.imp ?_)
    rintro d c ⟨hc, -, hcd⟩
    exact ih c hc hcd
  | text i s => exact h ▸ Alike.refl _

theorem forall₂_trans {cs ds es : List (Node P)} {R S T : Node P → Node P → Prop}
    (h : List.Forall₂ R cs ds) (h' : List.Forall₂ S ds es)
    (hT : ∀ c ∈ cs, ∀ d e, R c d → S d e → T c e) : List.Forall₂ T cs es := by
  induction h generalizing es with
  | nil =>
    cases h'
    exact .nil
  | cons hd _ tail =>
    cases h' with
    | cons hd' tl' =>
      refine .cons (hT _ List.mem_cons_self _ _ hd hd') (tail tl' ?_)
      exact fun c hc => hT c (List.mem_cons_of_mem _ hc)

theorem Alike.trans {n m k : Node P} (h : n.Alike m) (h' : m.Alike k) : n.Alike k := by
  induction n generalizing m k with
  | element i tag as cs ih =>
    obtain ⟨bs, ds, rfl, hp, hf⟩ := alike_element_iff.mp h
    obtain ⟨es, fs, rfl, hp', hf'⟩ := alike_element_iff.mp h'
    exact alike_element (hp.trans hp') (forall₂_trans hf hf' fun c hc _ _ => ih c hc)
  | text i s =>
    rw [alike_text_iff] at h
    subst h
    exact h'

/-! ### What trees that are alike share -/

theorem Alike.id_eq {n m : Node P} (h : n.Alike m) : n.id = m.id := by
  cases n with
  | element i tag as cs =>
    obtain ⟨bs, ds, rfl, -, -⟩ := alike_element_iff.mp h
    rfl
  | text i s => rw [alike_text_iff.mp h]

theorem Alike.tag?_eq {n m : Node P} (h : n.Alike m) : n.tag? = m.tag? := by
  cases n with
  | element i tag as cs =>
    obtain ⟨bs, ds, rfl, -, -⟩ := alike_element_iff.mp h
    rfl
  | text i s => rw [alike_text_iff.mp h]

theorem Alike.isText_eq {n m : Node P} (h : n.Alike m) : n.isText = m.isText := by
  cases n with
  | element i tag as cs =>
    obtain ⟨bs, ds, rfl, -, -⟩ := alike_element_iff.mp h
    rfl
  | text i s => rw [alike_text_iff.mp h]

theorem Alike.attributes_perm {n m : Node P} (h : n.Alike m) :
    n.attributes.Perm m.attributes := by
  cases n with
  | element i tag as cs =>
    obtain ⟨bs, ds, rfl, hp, -⟩ := alike_element_iff.mp h
    exact hp
  | text i s => rw [alike_text_iff.mp h]

theorem Alike.children {n m : Node P} (h : n.Alike m) :
    List.Forall₂ Alike n.children m.children := by
  cases n with
  | element i tag as cs =>
    obtain ⟨bs, ds, rfl, -, hf⟩ := alike_element_iff.mp h
    exact hf
  | text i s =>
    rw [alike_text_iff.mp h]
    exact .nil

theorem map_eq_of_forall₂ {α : Type} {g : Node P → α} {cs ds : List (Node P)}
    (h : List.Forall₂ Alike cs ds) (hg : ∀ c ∈ cs, ∀ d, c.Alike d → g c = g d) :
    cs.map g = ds.map g := by
  induction h with
  | nil => rfl
  | cons hd _ tail =>
    rw [List.map_cons, List.map_cons, hg _ List.mem_cons_self _ hd,
      tail fun c hc => hg c (List.mem_cons_of_mem _ hc)]

theorem map_id_eq_of_forall₂ {cs ds : List (Node P)} (h : List.Forall₂ Alike cs ds) :
    cs.map id = ds.map id := map_eq_of_forall₂ h fun _ _ _ hd => hd.id_eq

theorem Alike.ids_eq {n m : Node P} (h : n.Alike m) : n.ids = m.ids := by
  induction n generalizing m with
  | element i tag as cs ih =>
    obtain ⟨bs, ds, rfl, -, hf⟩ := alike_element_iff.mp h
    rw [ids_element, ids_element, List.flatMap_def, List.flatMap_def,
      map_eq_of_forall₂ hf fun c hc d hd => ih c hc hd]
  | text i s => rw [alike_text_iff.mp h]

theorem Alike.handlers_perm {n m : Node P} (h : n.Alike m) : n.handlers.Perm m.handlers := by
  induction n generalizing m with
  | element i tag as cs ih =>
    obtain ⟨bs, ds, rfl, hp, hf⟩ := alike_element_iff.mp h
    rw [handlers_element, handlers_element]
    refine ((hp.filterMap _).map _).append ?_
    clear h hp
    induction hf with
    | nil => rfl
    | cons hd _ tail =>
      simp only [List.flatMap_cons]
      exact (ih _ List.mem_cons_self hd).append
        (tail fun c hc => ih c (List.mem_cons_of_mem _ hc))
  | text i s => rw [alike_text_iff.mp h]

theorem Alike.exists_subtree {n m x : Node P} (h : n.Alike m) (hx : x ∈ n.subtrees) :
    ∃ y ∈ m.subtrees, x.Alike y := by
  induction n generalizing m with
  | element i tag as cs ih =>
    rw [subtrees_element, List.mem_cons] at hx
    rcases hx with rfl | hx
    · exact ⟨m, m.self_mem_subtrees, h⟩
    · obtain ⟨c, hc, hxc⟩ := List.mem_flatMap.mp hx
      obtain ⟨bs, ds, rfl, -, hf⟩ := alike_element_iff.mp h
      obtain ⟨d, hd, hcd⟩ := exists_of_forall₂ hf hc
      obtain ⟨y, hy, hxy⟩ := ih c hc hcd hxc
      exact ⟨y, mem_subtrees_of_mem hd hy, hxy⟩
  | text i s =>
    rw [subtrees_text, List.mem_singleton] at hx
    exact ⟨m, m.self_mem_subtrees, hx ▸ h⟩

/-! ### Changes -/

theorem Alike.map {n m : Node P} (h : n.Alike m) (f : P → Q) : (n.map f).Alike (m.map f) := by
  induction n generalizing m with
  | element i tag as cs ih =>
    obtain ⟨bs, ds, rfl, hp, hf⟩ := alike_element_iff.mp h
    rw [map_element, map_element]
    refine alike_element (hp.map _) ?_
    rw [List.forall₂_map_left_iff, List.forall₂_map_right_iff]
    exact (forall₂_mem hf).imp fun c d hcd => ih c hcd.1 hcd.2.2
  | text i s =>
    rw [alike_text_iff.mp h]

theorem Alike.modify {n m : Node P} (h : n.Alike m) (x : NodeId) {f g : Node P → Node P}
    (hfg : ∀ a ∈ n.subtrees, ∀ b ∈ m.subtrees, a.Alike b → a.id = x → (f a).Alike (g b)) :
    (n.modify x f).Alike (m.modify x g) := by
  induction n generalizing m with
  | element i tag as cs ih =>
    by_cases hi : i = x
    · have hm : m.id = x := h.id_eq.symm.trans hi
      subst hm
      rw [← h.id_eq, modify_of_id_eq, h.id_eq, modify_of_id_eq]
      exact hfg _ (self_mem_subtrees _) _ (self_mem_subtrees _) h h.id_eq
    · obtain ⟨bs, ds, rfl, hp, hf⟩ := alike_element_iff.mp h
      rw [modify_element_of_ne hi, modify_element_of_ne hi]
      refine alike_element hp ?_
      rw [List.forall₂_map_left_iff, List.forall₂_map_right_iff]
      refine (forall₂_mem hf).imp ?_
      rintro c d ⟨hc, hd, hcd⟩
      refine ih c hc hcd fun a ha b hb => ?_
      exact hfg a (mem_subtrees_of_mem hc ha) b (mem_subtrees_of_mem hd hb)
  | text i s =>
    rw [alike_text_iff] at h
    subst h
    by_cases hi : i = x
    · simp only [Node.modify, if_pos hi]
      exact hfg _ (self_mem_subtrees _) _ (self_mem_subtrees _) (Alike.refl _) hi
    · simp only [Node.modify, if_neg hi]
      exact Alike.refl _

end ViewLoop.Node
