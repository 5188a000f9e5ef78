import ViewLoop.Proofs.ReplacementPass

/-!
# Attributes of an element that is changed in place

Attributes whose key is not in the new list go; then the new list is gone through, and an attribute
is updated where its key is in the old list and added where it is not. The element then has the new
attributes, in some order (`Difference.course_attributes`).
-/

namespace ViewLoop

variable {P : Type} {w : Bool} {known : HandlerId → Prop} {live : List NodeId}

/-! ### Marks of attributes -/

theorem Attribute.isIdentity_eq_of_key {a b : Attribute P} (h : a.key = b.key) :
    a.isIdentity = b.isIdentity := by
  cases a with
  | plain name value =>
    cases b with
    | plain other v => rw [isIdentity, isIdentity, AttributeKey.plain.inj h]
    | handler k => exact absurd h (by simp [key])
  | handler k =>
    cases b with
    | plain other v => exact absurd h (by simp [key])
    | handler l => rfl

theorem Attribute.key_of_isIdentity {a : Attribute P} (h : a.isIdentity = true) (x : NodeId) :
    a.key = (identity x : Attribute P).key := by
  cases a with
  | plain name value => exact congrArg AttributeKey.plain (beq_iff_eq.mp h)
  | handler k => exact nomatch h

/-- Attributes of an element before and after share a mark only for the same event. -/
theorem Revision.key_eq_of_shared_mark {i : NodeId} {tag : String} {as bs : List (Attribute P)}
    {cs ds : List (Node P)}
    (h : Revision w known live (.element i tag as cs) (.element i tag bs ds))
    {a b : Attribute P} (ha : a ∈ as) (hb : b ∈ bs) {x : Mark} (hxa : x ∈ a.marks w)
    (hxb : x ∈ b.marks w) : a.key = b.key := by
  cases x with
  | node y => exact absurd hxa (Node.node_not_mem_attribute_marks a y)
  | handler y =>
    obtain ⟨hw, k, rfl, hky⟩ := Node.handler_mem_attribute_marks_iff.mp hxa
    obtain ⟨-, l, rfl, hly⟩ := Node.handler_mem_attribute_marks_iff.mp hxb
    have hknown : known l.id := by
      rw [hly, ← hky]
      exact h.known_old (i, k) (Node.mem_handlers_iff.mpr ⟨_, Node.self_mem_subtrees _, rfl, ha⟩) hw
    obtain ⟨m, hm, hid, hev⟩ := (h.retains hw).attribute hb hknown
    have hxm : .handler y ∈ (Attribute.handler m).marks w :=
      Node.handler_mem_attribute_marks_iff.mpr ⟨hw, m, rfl, hid.trans hly⟩
    have hmk := eq_of_mem_flatMap (Node.nodup_own_marks h.oldMarks) ha hm hxa hxm
    rw [← hmk]
    exact congrArg AttributeKey.event hev

namespace Difference

variable {as bs : List (Attribute P)}

/-! ### Attributes by key -/

theorem withKey_eq_some_iff (h : (as.map Attribute.key).Nodup) {k : AttributeKey}
    {a : Attribute P} : withKey as k = some a ↔ a ∈ as ∧ a.key = k := by
  rw [withKey]
  constructor
  · intro ha
    exact ⟨List.mem_of_find?_eq_some ha, by simpa using List.find?_some ha⟩
  · rintro ⟨ha, rfl⟩
    cases hf : as.find? fun b => b.key = a.key with
    | none => exact absurd (List.find?_eq_none.mp hf a ha) (by simp)
    | some b =>
      have hb : b.key = a.key := by simpa using List.find?_some hf
      exact congrArg some (List.inj_on_of_nodup_map h (List.mem_of_find?_eq_some hf) ha hb)

theorem withKey_eq_none_iff {k : AttributeKey} :
    withKey as k = none ↔ k ∉ as.map Attribute.key := by
  rw [withKey, List.find?_eq_none, List.mem_map]
  constructor
  · rintro h ⟨a, ha, rfl⟩
    exact h a ha (by simp)
  · intro h a ha
    have hne : a.key ≠ k := fun e => h ⟨a, ha, e⟩
    simpa using hne

theorem firsts_eq {seen : List AttributeKey} (h : (as.map Attribute.key).Nodup)
    (hs : ∀ a ∈ as, a.key ∉ seen) : firsts seen as = as := by
  induction as generalizing seen with
  | nil => rfl
  | cons a as ih =>
    obtain ⟨ha, h⟩ := List.nodup_cons.mp h
    rw [firsts, if_neg (hs a List.mem_cons_self)]
    refine congrArg (a :: ·) (ih h fun b hb hm => ?_)
    rcases List.mem_cons.mp hm with e | hm
    · exact ha (List.mem_map.mpr ⟨b, hb, e⟩)
    · exact hs b (List.mem_cons_of_mem _ hb) hm

/-! ### Attributes that go -/

theorem course_attributesGone (i : NodeId) (tag : String) {cur gone : List (Attribute P)}
    (cs : List (Node P)) (hk : (cur.map Attribute.key).Nodup) (hg : gone ⊆ cur)
    (hn : (gone.map Attribute.key).Nodup) :
    Course w (.element i tag cur cs) (gone.map (.removeAttribute i))
      (.element i tag (cur.filter fun a => a.key ∉ gone.map Attribute.key) cs) := by
  induction gone generalizing cur with
  | nil =>
    have hall : cur.filter (fun a => a.key ∉ ([] : List (Attribute P)).map Attribute.key) = cur :=
      List.filter_eq_self.mpr fun a _ => by simp
    rw [hall]
    exact .nil _
  | cons b gone ih =>
    obtain ⟨hbg, hn⟩ := List.nodup_cons.mp hn
    have hb : b ∈ cur := hg List.mem_cons_self
    have hfirst : Course w (.element i tag cur cs) [.removeAttribute i b]
        (.element i tag (cur.filter fun a => a.key ≠ b.key) cs) := by
      have h := Course.single (w := w) (n := .element i tag cur cs) (p := .removeAttribute i b) rfl
        ⟨hk, hb⟩
      rwa [Patch.act, Node.withAttributes, Attribute.drop_eq_filter hk] at h
    have hsub : gone ⊆ cur.filter fun a => a.key ≠ b.key := by
      intro a ha
      have hne : a.key ≠ b.key := fun e => hbg (List.mem_map.mpr ⟨a, ha, e⟩)
      exact List.mem_filter.mpr ⟨hg (List.mem_cons_of_mem _ ha), by simpa using hne⟩
    have hrest := ih (hk.sublist (List.filter_sublist.map _)) hsub hn
    have hfilter : (cur.filter fun a => a.key ≠ b.key).filter
        (fun a => a.key ∉ gone.map Attribute.key)
        = cur.filter fun a => a.key ∉ (b :: gone).map Attribute.key := by
      rw [List.filter_filter]
      refine List.filter_congr fun a _ => ?_
      rw [List.map_cons]
      by_cases h1 : a.key = b.key <;> by_cases h2 : a.key ∈ gone.map Attribute.key <;> simp [h1, h2]
    rw [hfilter] at hrest
    exact hfirst.append hrest

/-! ### Attributes that stay and come -/

/-- The attributes of an element halfway: those of the new list that are done, and the old ones
with the keys of those that are not. -/
structure Halfway (old new done rest cur : List (Attribute P)) : Prop where
  keys : (cur.map Attribute.key).Nodup
  split : new = done ++ rest
  mem_iff : ∀ a, a ∈ cur ↔ a ∈ done ∨ a ∈ old ∧ a.key ∈ rest.map Attribute.key

theorem Halfway.key_ne {done rest cur : List (Attribute P)} {b : Attribute P}
    (h : Halfway as bs done (b :: rest) cur) (hb : (bs.map Attribute.key).Nodup) :
    (∀ a ∈ done, a.key ≠ b.key) ∧ b.key ∉ rest.map Attribute.key := by
  rw [h.split, List.map_append, List.map_cons, List.nodup_append] at hb
  obtain ⟨-, hrest, hdone⟩ := hb
  exact ⟨fun a ha => hdone _ (List.mem_map_of_mem ha) _ List.mem_cons_self,
    (List.nodup_cons.mp hrest).1⟩

/-- The attribute of the key at hand gives way to the new one, or the new one comes in. -/
theorem Halfway.next {done rest cur cur' : List (Attribute P)} {b : Attribute P}
    (h : Halfway as bs done (b :: rest) cur) (hb : (bs.map Attribute.key).Nodup)
    (hkeys : (cur'.map Attribute.key).Nodup)
    (hmem : ∀ a, a ∈ cur' ↔ a = b ∨ a ∈ cur ∧ a.key ≠ b.key) :
    Halfway as bs (done ++ [b]) rest cur' := by
  obtain ⟨hdone, hrest⟩ := h.key_ne hb
  refine ⟨hkeys, by rw [h.split, List.append_assoc, List.singleton_append], fun a => ?_⟩
  rw [hmem, h.mem_iff, List.mem_append, List.mem_singleton, List.map_cons, List.mem_cons]
  constructor
  · rintro (rfl | ⟨ha | ⟨ha, hk⟩, hne⟩)
    · exact Or.inl (Or.inr rfl)
    · exact Or.inl (Or.inl ha)
    · exact Or.inr ⟨ha, hk.resolve_left hne⟩
  · rintro ((ha | rfl) | ⟨ha, hk⟩)
    · exact Or.inr ⟨Or.inl ha, hdone a ha⟩
    · exact Or.inl rfl
    · exact Or.inr ⟨Or.inr ⟨ha, Or.inr hk⟩, fun e => hrest (e ▸ hk)⟩

theorem mem_middle_iff {before after : List (Attribute P)} {a : Attribute P}
    (h : ((before ++ a :: after).map Attribute.key).Nodup) (b c : Attribute P) :
    c ∈ before ++ b :: after ↔ c = b ∨ c ∈ before ++ a :: after ∧ c.key ≠ a.key := by
  have hfilter := Attribute.drop_middle h
  rw [Attribute.drop_eq_filter h] at hfilter
  have hmem : c ∈ before ++ after ↔ c ∈ before ++ a :: after ∧ c.key ≠ a.key := by
    rw [← hfilter, List.mem_filter]
    simp
  rw [← hmem]
  simp only [List.mem_append, List.mem_cons]
  constructor
  · rintro (h | h | h)
    · exact Or.inr (Or.inl h)
    · exact Or.inl h
    · exact Or.inr (Or.inr h)
  · rintro (h | h | h)
    · exact Or.inr (Or.inl h)
    · exact Or.inl h
    · exact Or.inr (Or.inr h)

section Element

variable {i : NodeId} {tag : String} {cs ds cur : List (Node P)}

/-- A mark of a new attribute is halfway only at the old attribute of its key, or there is none. -/
theorem Halfway.shared_mark
    (h : Revision w known live (.element i tag as cs) (.element i tag bs ds))
    (hclear : ∀ x ∈ bs.flatMap (Attribute.marks w), x ∉ cur.flatMap (Node.marks w))
    {done rest now : List (Attribute P)} {b : Attribute P} (hh : Halfway as bs done (b :: rest) now)
    {x : Mark} (hx : x ∈ b.marks w) (hxe : x ∈ (Node.element i tag now cur).marks w) :
    ∃ a ∈ as, a.key = b.key ∧ x ∈ a.marks w := by
  have hb : b ∈ bs := by
    rw [hh.split]
    simp
  rw [Node.marks_element, List.mem_cons, List.mem_append] at hxe
  rcases hxe with rfl | hxe | hxe
  · exact absurd hx (Node.node_not_mem_attribute_marks b i)
  · obtain ⟨c, hc, hxc⟩ := List.mem_flatMap.mp hxe
    rcases (hh.mem_iff c).mp hc with hc | ⟨hc, -⟩
    · have hcb : c ∈ bs := by
        rw [hh.split]
        exact List.mem_append_left _ hc
      have hkeys := h.newTidy.keys _ (Node.self_mem_subtrees _)
      have hne := (hh.key_ne hkeys).1 c hc
      have heq := eq_of_mem_flatMap (Node.nodup_own_marks h.newMarks) hb hcb hx hxc
      exact absurd (congrArg Attribute.key heq) hne
    · exact ⟨c, hc, h.key_eq_of_shared_mark hc hb hxc hx, hxc⟩
  · exact absurd hxe (hclear x (List.mem_flatMap.mpr ⟨b, hb, hx⟩))

theorem eq_identity_of_revision
    (h : Revision w known live (.element i tag as cs) (.element i tag bs ds)) {a : Attribute P}
    (ha : a ∈ as ∨ a ∈ bs) (hi : a.isIdentity = true) : a = .identity i := by
  rcases ha with ha | ha
  · exact h.oldTidy.identity _ (Node.self_mem_subtrees _) a ha hi
  · exact h.newTidy.identity _ (Node.self_mem_subtrees _) a ha hi

/-- An attribute whose key is new is added; another one is updated unless it is the same. -/
theorem attributePatch_eq [DecidableEq P]
    (h : Revision w known live (.element i tag as cs) (.element i tag bs ds)) {b : Attribute P}
    (hb : b ∈ bs) :
    attributePatch i as b = match withKey as b.key with
      | none => some (.addAttribute i b)
      | some a => if a = b then none else some (.updateAttribute i a b) := by
  have hka : (as.map Attribute.key).Nodup := h.oldTidy.keys _ (Node.self_mem_subtrees _)
  rw [attributePatch]
  cases hold : withKey as b.key with
  | none =>
    by_cases hi : b.isIdentity = true
    · simp only [if_pos hi]
      exact congrArg (fun c => some (Patch.addAttribute i c))
        (eq_identity_of_revision h (Or.inr hb) hi).symm
    · simp only [if_neg hi]
  | some a =>
    obtain ⟨ha, hk⟩ := (withKey_eq_some_iff hka).mp hold
    -- identity attributes of one element are equal, so the test for them is not needed
    have hsame : b.isIdentity = true ∨ a = b ↔ a = b := by
      refine ⟨fun hs => hs.elim (fun hi => ?_) fun e => e, Or.inr⟩
      rw [eq_identity_of_revision h (Or.inr hb) hi, eq_identity_of_revision h (Or.inl ha)
        ((Attribute.isIdentity_eq_of_key hk).trans hi)]
    simp only [hsame]

/-- A new attribute whose key is not there is added. -/
theorem Halfway.course_added
    (h : Revision w known live (.element i tag as cs) (.element i tag bs ds))
    (hclear : ∀ x ∈ bs.flatMap (Attribute.marks w), x ∉ cur.flatMap (Node.marks w))
    {done rest now : List (Attribute P)} {b : Attribute P} (hh : Halfway as bs done (b :: rest) now)
    (hold : withKey as b.key = none) :
    Halfway as bs (done ++ [b]) rest (now ++ [b])
      ∧ Course w (.element i tag now cur) [.addAttribute i b] (.element i tag (now ++ [b]) cur) := by
  have hkb : (bs.map Attribute.key).Nodup := h.newTidy.keys _ (Node.self_mem_subtrees _)
  have hnew := withKey_eq_none_iff.mp hold
  have hnow : ∀ a ∈ now, a.key ≠ b.key := by
    intro a ha e
    rcases (hh.mem_iff a).mp ha with ha | ⟨ha, -⟩
    · exact (hh.key_ne hkb).1 a ha e
    · exact hnew (List.mem_map.mpr ⟨a, ha, e⟩)
  constructor
  · refine hh.next hkb ?_ fun a => ?_
    · rw [List.map_append, List.map_singleton, List.nodup_append]
      refine ⟨hh.keys, List.nodup_singleton _, fun k hk l hl e => ?_⟩
      obtain ⟨a, ha, rfl⟩ := List.mem_map.mp hk
      exact hnow a ha (e.trans (List.mem_singleton.mp hl))
    · rw [List.mem_append, List.mem_singleton, or_comm]
      exact or_congr_right ⟨fun ha => ⟨ha, hnow a ha⟩, And.left⟩
  · have hsuits : (Patch.addAttribute i b).Suits w (.element i tag now cur) := by
      refine ⟨rfl, fun hm => ?_, fun x hx hxe => ?_⟩
      · obtain ⟨a, ha, e⟩ := List.mem_map.mp hm
        exact hnow a ha e
      · obtain ⟨a, ha, hk, -⟩ := Halfway.shared_mark h hclear hh hx hxe
        exact hnew (List.mem_map.mpr ⟨a, ha, hk⟩)
    exact Course.single rfl hsuits

/-- A new attribute takes the place of the old one with its key. -/
theorem Halfway.course_updated
    (h : Revision w known live (.element i tag as cs) (.element i tag bs ds))
    (hclear : ∀ x ∈ bs.flatMap (Attribute.marks w), x ∉ cur.flatMap (Node.marks w))
    {done rest now : List (Attribute P)} {a b : Attribute P}
    (hh : Halfway as bs done (b :: rest) now) (hold : withKey as b.key = some a) :
    ∃ now', Halfway as bs (done ++ [b]) rest now' ∧ (a = b → now' = now)
      ∧ Course w (.element i tag now cur) [.updateAttribute i a b] (.element i tag now' cur) := by
  have hka : (as.map Attribute.key).Nodup := h.oldTidy.keys _ (Node.self_mem_subtrees _)
  have hkb : (bs.map Attribute.key).Nodup := h.newTidy.keys _ (Node.self_mem_subtrees _)
  obtain ⟨ha, hk⟩ := (withKey_eq_some_iff hka).mp hold
  have hanow : a ∈ now := (hh.mem_iff a).mpr (Or.inr ⟨ha, by simp [hk]⟩)
  obtain ⟨pre, post, rfl⟩ := List.append_of_mem hanow
  refine ⟨pre ++ b :: post, hh.next hkb ?_ fun c => ?_, fun e => by rw [e], ?_⟩
  · have hkeys := hh.keys
    rw [List.map_append, List.map_cons, hk] at hkeys
    rwa [List.map_append, List.map_cons]
  · rw [mem_middle_iff hh.keys b c, hk]
  · have hsuits : (Patch.updateAttribute i a b).Suits w
        (.element i tag (pre ++ a :: post) cur) := by
      refine ⟨hh.keys, hanow, hk.symm, fun x hx hxe => ?_⟩
      obtain ⟨c, hc, hck, hxc⟩ := Halfway.shared_mark h hclear hh hx hxe
      obtain rfl : c = a := List.inj_on_of_nodup_map hka hc ha (hck.trans hk.symm)
      exact hxc
    have hcourse := Course.single (w := w) (n := .element i tag (pre ++ a :: post) cur) rfl hsuits
    rwa [Patch.act, Node.withAttributes, Attribute.put_middle hh.keys] at hcourse

theorem course_attributesNew [DecidableEq P]
    (h : Revision w known live (.element i tag as cs) (.element i tag bs ds))
    (hclear : ∀ x ∈ bs.flatMap (Attribute.marks w), x ∉ cur.flatMap (Node.marks w))
    {done rest now : List (Attribute P)} (hh : Halfway as bs done rest now) :
    ∃ last, last.Perm bs ∧ Course w (.element i tag now cur)
      (rest.filterMap (attributePatch i as)) (.element i tag last cur) := by
  induction rest generalizing done now with
  | nil =>
    have hkb : (bs.map Attribute.key).Nodup := h.newTidy.keys _ (Node.self_mem_subtrees _)
    refine ⟨now, ?_, .nil _⟩
    refine (List.perm_ext_iff_of_nodup (List.Nodup.of_map _ hh.keys) (List.Nodup.of_map _ hkb)).mpr
      fun a => ?_
    rw [hh.mem_iff, hh.split]
    simp
  | cons b rest ih =>
    have hb : b ∈ bs := by
      rw [hh.split]
      simp
    have hpatch := attributePatch_eq h hb
    cases hold : withKey as b.key with
    | none =>
      rw [hold] at hpatch
      obtain ⟨hnext, hfirst⟩ := Halfway.course_added h hclear hh hold
      obtain ⟨last, hlast, hcourse⟩ := ih hnext
      rw [List.filterMap_cons_some hpatch]
      exact ⟨last, hlast, hfirst.append hcourse⟩
    | some a =>
      rw [hold] at hpatch
      obtain ⟨now', hnext, hsame, hfirst⟩ := Halfway.course_updated h hclear hh hold
      obtain ⟨last, hlast, hcourse⟩ := ih hnext
      refine ⟨last, hlast, ?_⟩
      by_cases hab : a = b
      · rw [List.filterMap_cons_none (hpatch.trans (if_pos hab)), ← hsame hab]
        exact hcourse
      · rw [List.filterMap_cons_some (hpatch.trans (if_neg hab))]
        exact hfirst.append hcourse

theorem course_attributes [DecidableEq P]
    (h : Revision w known live (.element i tag as cs) (.element i tag bs ds))
    (hclear : ∀ x ∈ bs.flatMap (Attribute.marks w), x ∉ cur.flatMap (Node.marks w)) :
    ∃ last, last.Perm bs ∧ Course w (.element i tag as cur) (attributePatches i as bs)
      (.element i tag last cur) := by
  have hka : (as.map Attribute.key).Nodup := h.oldTidy.keys _ (Node.self_mem_subtrees _)
  have hkb : (bs.map Attribute.key).Nodup := h.newTidy.keys _ (Node.self_mem_subtrees _)
  let gone := as.filter fun a => (withKey bs a.key).isNone
  have hmemGone : ∀ a ∈ as, a.key ∈ gone.map Attribute.key ↔ a.key ∉ bs.map Attribute.key := by
    intro a ha
    constructor
    · intro hm
      obtain ⟨c, hc, e⟩ := List.mem_map.mp hm
      have hnone := (List.mem_filter.mp hc).2
      rw [Option.isNone_iff_eq_none, withKey_eq_none_iff, e] at hnone
      exact hnone
    · intro hm
      refine List.mem_map_of_mem (List.mem_filter.mpr ⟨ha, ?_⟩)
      rw [Option.isNone_iff_eq_none, withKey_eq_none_iff]
      exact hm
  have hfirst := course_attributesGone (w := w) i tag cur hka (List.filter_sublist.subset : gone ⊆ as)
    (hka.sublist (List.filter_sublist.map _))
  have hhalf : Halfway as bs [] bs (as.filter fun a => a.key ∉ gone.map Attribute.key) := by
    refine ⟨hka.sublist (List.filter_sublist.map _), rfl, fun a => ?_⟩
    rw [List.mem_filter]
    simp only [List.not_mem_nil, false_or, decide_not, Bool.not_eq_eq_eq_not, Bool.not_true,
      decide_eq_false_iff_not]
    refine and_congr_right fun ha => ?_
    rw [hmemGone a ha, not_not]
  obtain ⟨last, hlast, hcourse⟩ := course_attributesNew h hclear hhalf
  refine ⟨last, hlast, ?_⟩
  rw [attributePatches, firsts_eq hka fun _ _ => List.not_mem_nil,
    firsts_eq hkb fun _ _ => List.not_mem_nil]
  exact hfirst.append hcourse

theorem touches_attributePatches [DecidableEq P]
    (h : Revision w known live (.element i tag as cs) (.element i tag bs ds)) :
    ∀ p ∈ attributePatches i as bs, ∀ x ∈ p.touches w,
      x ∈ as.flatMap (Attribute.marks w) ∨ x ∈ bs.flatMap (Attribute.marks w) := by
  have hka : (as.map Attribute.key).Nodup := h.oldTidy.keys _ (Node.self_mem_subtrees _)
  have hkb : (bs.map Attribute.key).Nodup := h.newTidy.keys _ (Node.self_mem_subtrees _)
  intro p hp x hx
  rw [attributePatches, firsts_eq hka fun _ _ => List.not_mem_nil,
    firsts_eq hkb fun _ _ => List.not_mem_nil, List.mem_append] at hp
  rcases hp with hp | hp
  · obtain ⟨a, ha, rfl⟩ := List.mem_map.mp hp
    exact Or.inl (List.mem_flatMap.mpr ⟨a, (List.mem_filter.mp ha).1, hx⟩)
  · obtain ⟨b, hb, hpatch⟩ := List.mem_filterMap.mp hp
    rw [attributePatch_eq h hb] at hpatch
    cases hold : withKey as b.key with
    | none =>
      rw [hold] at hpatch
      obtain rfl := Option.some.inj hpatch
      exact Or.inr (List.mem_flatMap.mpr ⟨b, hb, hx⟩)
    | some a =>
      obtain ⟨ha, -⟩ := (withKey_eq_some_iff hka).mp hold
      rw [hold] at hpatch
      by_cases hsame : a = b
      · exact absurd (hpatch.symm.trans (if_pos hsame)) (by simp)
      · obtain rfl := Option.some.inj (hpatch.symm.trans (if_neg hsame))
        rcases List.mem_append.mp hx with hx | hx
        · exact Or.inl (List.mem_flatMap.mpr ⟨a, ha, hx⟩)
        · exact Or.inr (List.mem_flatMap.mpr ⟨b, hb, hx⟩)

end Element

end Difference

end ViewLoop
