import ViewLoop.Proofs.ReplacementPass

/-!
# Handlers that go and come

Which handlers a patch takes out of a tree (`Patch.outgoing`) and which it brings in
(`Patch.incoming`). In a tree without repeated marks the handlers after a patch are those before it
that do not go, and those that come (`Patch.Leads.mem_handlers_iff`).
-/

namespace ViewLoop

variable {P : Type}

namespace Node

theorem mem_handlers_element {i : NodeId} {tag : String} {as : List (Attribute P)}
    {cs : List (Node P)} {k : NodeId × Handler P} :
    k ∈ (element i tag as cs).handlers
      ↔ (k.1 = i ∧ .handler k.2 ∈ as) ∨ ∃ c ∈ cs, k ∈ c.handlers := by
  obtain ⟨w, h⟩ := k
  rw [mem_handlers_iff, subtrees_element]
  simp only [List.mem_cons, List.mem_flatMap]
  constructor
  · rintro ⟨m, rfl | ⟨c, hc, hm⟩, hid, ha⟩
    · exact Or.inl ⟨hid.symm, ha⟩
    · exact Or.inr ⟨c, hc, Node.mem_handlers_iff.mpr ⟨m, hm, hid, ha⟩⟩
  · rintro (⟨rfl, ha⟩ | ⟨c, hc, hk⟩)
    · exact ⟨_, Or.inl rfl, rfl, ha⟩
    · obtain ⟨m, hm, hid, ha⟩ := Node.mem_handlers_iff.mp hk
      exact ⟨m, Or.inr ⟨c, hc, hm⟩, hid, ha⟩

theorem handler_mem_marks_of_mem {n : Node P} {k : NodeId × Handler P} (hk : k ∈ n.handlers) :
    .handler k.2.id ∈ n.marks true := handler_mem_marks_iff.mpr ⟨rfl, k, hk, rfl⟩

theorem handler_mem_handlerMarks_of_mem {n : Node P} {k : NodeId × Handler P}
    (hk : k ∈ n.handlers) : .handler k.2.id ∈ n.handlerMarks true :=
  mem_handlerMarks_iff.mpr ⟨handler_mem_marks_of_mem hk, rfl⟩

def handlerIds (n : Node P) : List HandlerId := n.handlers.map fun k => k.2.id

theorem map_id_handlers (n : Node P) : (n.handlers.map Prod.snd).map Handler.id = n.handlerIds := by
  rw [List.map_map]
  rfl

theorem mem_handlerIds_iff {n : Node P} {x : HandlerId} :
    x ∈ n.handlerIds ↔ .handler x ∈ n.marks true := by
  rw [handlerIds, List.mem_map, handler_mem_marks_iff, and_iff_right rfl]

theorem mem_handlerIds_iff' {n : Node P} {x : HandlerId} :
    x ∈ n.handlerIds ↔ .handler x ∈ n.handlerMarks true := by
  rw [mem_handlerIds_iff, mem_handlerMarks_iff]
  exact (and_iff_left rfl).symm

end Node

namespace Patch

/-- The identities of the handlers that a patch takes away, or whose handlers it changes. -/
def outgoing : Patch P → List HandlerId
  | removeChild _ c => c.handlerIds
  | replaceChild _ old _ => old.handlerIds
  | updateAttribute _ old _ => (old.handler?.map Handler.id).toList
  | removeAttribute _ a => (a.handler?.map Handler.id).toList
  | _ => []

/-- The handlers that a patch brings, each with its element. -/
def incoming : Patch P → List (NodeId × Handler P)
  | addChild _ _ c => c.handlers
  | addText _ _ c => c.handlers
  | replaceChild _ _ new => new.handlers
  | updateAttribute x _ new => (new.handler?.map (x, ·)).toList
  | addAttribute x a => (a.handler?.map (x, ·)).toList
  | _ => []

theorem handler_mem_marks_of_outgoing {a : Attribute P} {x : HandlerId}
    (hx : x ∈ (a.handler?.map Handler.id).toList) : .handler x ∈ a.marks true := by
  cases a with
  | plain name value => exact absurd hx List.not_mem_nil
  | handler h =>
    exact Node.handler_mem_attribute_marks_iff.mpr ⟨rfl, h, rfl, (List.mem_singleton.mp hx).symm⟩

theorem mem_outgoing_iff {a : Attribute P} {x : HandlerId} :
    x ∈ (a.handler?.map Handler.id).toList ↔ .handler x ∈ a.marks true := by
  refine ⟨handler_mem_marks_of_outgoing, fun hx => ?_⟩
  obtain ⟨-, h, rfl, rfl⟩ := Node.handler_mem_attribute_marks_iff.mp hx
  exact List.mem_singleton_self _

theorem mem_incoming_iff {a : Attribute P} {x : NodeId} {k : NodeId × Handler P} :
    k ∈ (a.handler?.map (x, ·)).toList ↔ k.1 = x ∧ a = .handler k.2 := by
  cases a with
  | plain name value => simp [Attribute.handler?]
  | handler h =>
    obtain ⟨w, l⟩ := k
    simp [Attribute.handler?, eq_comm]

variable {n : Node P} {p : Patch P}

theorem outgoing_touched {x : HandlerId} (hx : x ∈ p.outgoing) : .handler x ∈ p.touches true := by
  cases p with
  | removeChild y c => exact Node.mem_handlerIds_iff'.mp hx
  | replaceChild y old new => exact List.mem_append_left _ (Node.mem_handlerIds_iff'.mp hx)
  | updateAttribute y old new => exact List.mem_append_left _ (handler_mem_marks_of_outgoing hx)
  | removeAttribute y a => exact handler_mem_marks_of_outgoing hx
  | addChild y i c => exact absurd hx List.not_mem_nil
  | addText y i c => exact absurd hx List.not_mem_nil
  | addAttribute y a => exact absurd hx List.not_mem_nil
  | reorderChildren y order => exact absurd hx List.not_mem_nil
  | updateText y u => exact absurd hx List.not_mem_nil
  | removeText y z => exact absurd hx List.not_mem_nil

/-! ### At the node that is changed -/

section Act

variable {i : NodeId} {tag : String} {as : List (Attribute P)} {cs : List (Node P)}

/-- Handlers of an element that are not those of one child are its own or those of the others. -/
theorem not_mem_handlerIds_of_ne (hn : ((Node.element i tag as cs).marks true).Nodup) {c : Node P}
    (hc : c ∈ cs) {k : NodeId × Handler P}
    (hk : (k.1 = i ∧ .handler k.2 ∈ as) ∨ ∃ d ∈ cs, d ≠ c ∧ k ∈ d.handlers) :
    .handler k.2.id ∉ c.marks true := by
  intro hkc
  rcases hk with ⟨-, ha⟩ | ⟨d, hd, hne, hkd⟩
  · refine (Node.not_mem_own_of_mem hn hc hkc).2 (List.mem_flatMap.mpr ⟨_, ha, ?_⟩)
    exact Node.handler_mem_attribute_marks_iff.mpr ⟨rfl, _, rfl, rfl⟩
  · exact Node.not_mem_marks_of_ne hn hc hd hne hkc (Node.handler_mem_marks_of_mem hkd)

/-- Handlers of an element that are not at one attribute are at the others or below. -/
theorem not_mem_attribute_of_ne (hn : ((Node.element i tag as cs).marks true).Nodup)
    {a : Attribute P} (ha : a ∈ as) {k : NodeId × Handler P}
    (hk : (∃ b ∈ as, b ≠ a ∧ b = .handler k.2) ∨ ∃ d ∈ cs, k ∈ d.handlers) :
    .handler k.2.id ∉ a.marks true := by
  intro hka
  rcases hk with ⟨b, hb, hne, rfl⟩ | ⟨d, hd, hkd⟩
  · refine hne (eq_of_mem_flatMap (Node.nodup_own_marks hn) ha hb hka ?_)
    exact Node.handler_mem_attribute_marks_iff.mpr ⟨rfl, _, rfl, rfl⟩
  · exact (Node.not_mem_own_of_mem hn hd (Node.handler_mem_marks_of_mem hkd)).2
      (List.mem_flatMap.mpr ⟨a, ha, hka⟩)

theorem mem_handlers_insert {j : Nat} {c : Node P} (hj : j ≤ cs.length)
    {k : NodeId × Handler P} :
    k ∈ (Node.element i tag as (cs.insertIdx j c)).handlers
      ↔ k ∈ (Node.element i tag as cs).handlers ∨ k ∈ c.handlers := by
  rw [Node.mem_handlers_element, Node.mem_handlers_element, or_assoc]
  refine or_congr_right ?_
  constructor
  · rintro ⟨d, hd, hk⟩
    rcases (List.mem_insertIdx hj).mp hd with rfl | hd
    · exact Or.inr hk
    · exact Or.inl ⟨d, hd, hk⟩
  · rintro (⟨d, hd, hk⟩ | hk)
    · exact ⟨d, (List.mem_insertIdx hj).mpr (Or.inr hd), hk⟩
    · exact ⟨c, (List.mem_insertIdx hj).mpr (Or.inl rfl), hk⟩

theorem mem_handlers_remove (hn : ((Node.element i tag as cs).marks true).Nodup) {c : Node P}
    (hc : c ∈ cs) {k : NodeId × Handler P} :
    k ∈ (Node.element i tag as (cs.filter fun d => d.id ≠ c.id)).handlers
      ↔ k ∈ (Node.element i tag as cs).handlers ∧ k.2.id ∉ c.handlerIds := by
  rw [Node.mem_handlers_element, Node.mem_handlers_element, Node.mem_handlerIds_iff]
  constructor
  · rintro (hown | ⟨d, hd, hk⟩)
    · exact ⟨Or.inl hown, not_mem_handlerIds_of_ne hn hc (Or.inl hown)⟩
    · obtain ⟨hd, hne⟩ := List.mem_filter.mp hd
      have hne' : d ≠ c := fun e => of_decide_eq_true hne (congrArg Node.id e)
      exact ⟨Or.inr ⟨d, hd, hk⟩, not_mem_handlerIds_of_ne hn hc (Or.inr ⟨d, hd, hne', hk⟩)⟩
  · rintro ⟨hown | ⟨d, hd, hk⟩, hno⟩
    · exact Or.inl hown
    · refine Or.inr ⟨d, List.mem_filter.mpr ⟨hd, decide_eq_true fun e => hno ?_⟩, hk⟩
      obtain rfl := List.inj_on_of_nodup_map (Node.nodup_children_of_marks hn) hd hc e
      exact Node.handler_mem_marks_of_mem hk

theorem mem_handlers_replace (hn : ((Node.element i tag as cs).marks true).Nodup)
    {m old new : Node P} (hm : m ∈ cs) (hid : m.id = old.id)
    (h : Succeeds true new old m (.element i tag as cs)) {k : NodeId × Handler P} :
    k ∈ (Node.element i tag as (cs.map fun d => if d.id = old.id then new else d)).handlers
      ↔ (k ∈ (Node.element i tag as cs).handlers ∧ k.2.id ∉ old.handlerIds)
        ∨ k ∈ new.handlers := by
  -- what the replaced node was once holds no handler of the element but those it holds now
  have hold : ∀ k ∈ (Node.element i tag as cs).handlers, k.2.id ∈ old.handlerIds →
      .handler k.2.id ∈ m.marks true := fun k hk hko =>
    h.spares _ (Node.mem_handlerIds_iff'.mp hko) (Node.handler_mem_marks_of_mem hk)
  have hstay : ∀ k, (k.1 = i ∧ .handler k.2 ∈ as) ∨ (∃ d ∈ cs, d ≠ m ∧ k ∈ d.handlers) →
      k ∈ (Node.element i tag as cs).handlers ∧ k.2.id ∉ old.handlerIds := by
    intro k hk
    have hmem : k ∈ (Node.element i tag as cs).handlers :=
      Node.mem_handlers_element.mpr (hk.imp_right fun ⟨d, hd, _, hkd⟩ => ⟨d, hd, hkd⟩)
    exact ⟨hmem, fun hko => not_mem_handlerIds_of_ne hn hm hk (hold k hmem hko)⟩
  constructor
  · intro hk
    rcases Node.mem_handlers_element.mp hk with hown | ⟨d, hd, hk⟩
    · exact Or.inl (hstay k (Or.inl hown))
    · obtain ⟨e, he, rfl⟩ := List.mem_map.mp hd
      by_cases heq : e.id = old.id
      · rw [if_pos heq] at hk
        exact Or.inr hk
      · rw [if_neg heq] at hk
        have hne : e ≠ m := fun h => heq (h ▸ hid)
        exact Or.inl (hstay k (Or.inr ⟨e, he, hne, hk⟩))
  · rintro (⟨hk, hno⟩ | hk)
    · rcases Node.mem_handlers_element.mp hk with hown | ⟨d, hd, hk⟩
      · exact Node.mem_handlers_element.mpr (Or.inl hown)
      · refine Node.mem_handlers_element.mpr (Or.inr ⟨d, List.mem_map.mpr ⟨d, hd, ?_⟩, hk⟩)
        refine if_neg fun heq => hno ?_
        obtain rfl := List.inj_on_of_nodup_map (Node.nodup_children_of_marks hn) hd hm
          (heq.trans hid.symm)
        exact Node.mem_handlerIds_iff'.mpr (h.leaves _ (Node.handler_mem_handlerMarks_of_mem hk))
    · exact Node.mem_handlers_element.mpr
        (Or.inr ⟨new, List.mem_map.mpr ⟨m, hm, if_pos hid⟩, hk⟩)

theorem mem_handlers_append {a : Attribute P} {k : NodeId × Handler P} :
    k ∈ (Node.element i tag (as ++ [a]) cs).handlers
      ↔ k ∈ (Node.element i tag as cs).handlers ∨ k.1 = i ∧ a = .handler k.2 := by
  rw [Node.mem_handlers_element, Node.mem_handlers_element, List.mem_append, List.mem_singleton]
  constructor
  · rintro (⟨hid, h | h⟩ | h)
    · exact Or.inl (Or.inl ⟨hid, h⟩)
    · exact Or.inr ⟨hid, h.symm⟩
    · exact Or.inl (Or.inr h)
  · rintro ((⟨hid, h⟩ | h) | ⟨hid, h⟩)
    · exact Or.inl ⟨hid, Or.inl h⟩
    · exact Or.inr h
    · exact Or.inl ⟨hid, Or.inr h.symm⟩

/-- An attribute is changed or goes; `now` are the attributes afterwards. -/
theorem mem_handlers_attributes (hn : ((Node.element i tag as cs).marks true).Nodup)
    {a : Attribute P} (ha : a ∈ as) {now : List (Attribute P)} {come : Option (Attribute P)}
    (hnow : ∀ b, b ∈ now ↔ b ∈ come ∨ b ∈ as ∧ b ≠ a) {k : NodeId × Handler P} :
    k ∈ (Node.element i tag now cs).handlers
      ↔ (k ∈ (Node.element i tag as cs).handlers
          ∧ k.2.id ∉ (a.handler?.map Handler.id).toList)
        ∨ k.1 = i ∧ .handler k.2 ∈ come := by
  rw [Node.mem_handlers_element, Node.mem_handlers_element, mem_outgoing_iff, hnow]
  constructor
  · rintro (⟨hid, hcome | ⟨hb, hne⟩⟩ | hbelow)
    · exact Or.inr ⟨hid, hcome⟩
    · exact Or.inl ⟨Or.inl ⟨hid, hb⟩,
        not_mem_attribute_of_ne hn ha (Or.inl ⟨_, hb, hne, rfl⟩)⟩
    · exact Or.inl ⟨Or.inr hbelow, not_mem_attribute_of_ne hn ha (Or.inr hbelow)⟩
  · rintro (⟨⟨hid, hb⟩ | hbelow, hno⟩ | ⟨hid, hcome⟩)
    · refine Or.inl ⟨hid, Or.inr ⟨hb, ?_⟩⟩
      rintro rfl
      exact hno (Node.handler_mem_attribute_marks_iff.mpr ⟨rfl, _, rfl, rfl⟩)
    · exact Or.inr hbelow
    · exact Or.inl ⟨hid, Or.inl hcome⟩

theorem mem_middle_iff_ne {α : Type} {pre post : List α} {a x : α}
    (h : (pre ++ a :: post).Nodup) : x ∈ pre ++ post ↔ x ∈ pre ++ a :: post ∧ x ≠ a := by
  have hno : a ∉ pre ++ post := (List.nodup_middle.mp h).notMem
  rw [List.mem_append, List.mem_append, List.mem_cons]
  constructor
  · intro hx
    refine ⟨hx.imp_right Or.inr, ?_⟩
    rintro rfl
    exact hno (List.mem_append.mpr hx)
  · rintro ⟨hx | rfl | hx, hne⟩
    · exact Or.inl hx
    · exact absurd rfl hne
    · exact Or.inr hx

theorem mem_put_iff {a new x : Attribute P} (hk : (as.map Attribute.key).Nodup) (ha : a ∈ as) :
    x ∈ Attribute.put a.key new as ↔ x ∈ some new ∨ x ∈ as ∧ x ≠ a := by
  obtain ⟨pre, post, rfl⟩ := List.append_of_mem ha
  rw [Attribute.put_middle hk, ← mem_middle_iff_ne (List.Nodup.of_map _ hk), List.mem_append,
    List.mem_cons, List.mem_append, Option.mem_some, or_left_comm, eq_comm]

theorem mem_drop_iff {a x : Attribute P} (hk : (as.map Attribute.key).Nodup) (ha : a ∈ as) :
    x ∈ Attribute.drop a.key as ↔ x ∈ (none : Option (Attribute P)) ∨ x ∈ as ∧ x ≠ a := by
  obtain ⟨pre, post, rfl⟩ := List.append_of_mem ha
  rw [Attribute.drop_middle hk, ← mem_middle_iff_ne (List.Nodup.of_map _ hk)]
  simp

end Act

theorem handlers_of_isText {c : Node P} (h : c.isText = true) : c.handlers = [] := by
  cases c with
  | text i u => rfl
  | element i tag as cs => exact absurd h (by simp [Node.isText])

theorem mem_handlers_act (hs : p.Suits true n) (hn : (n.marks true).Nodup)
    (ht : p.target = some n.id) (k : NodeId × Handler P) :
    k ∈ (p.act n).handlers ↔ (k ∈ n.handlers ∧ k.2.id ∉ p.outgoing) ∨ k ∈ p.incoming := by
  have hsame : ∀ m : Node P, (∀ k, k ∈ m.handlers ↔ k ∈ n.handlers) →
      (k ∈ m.handlers ↔ (k ∈ n.handlers ∧ k.2.id ∉ ([] : List HandlerId))
        ∨ k ∈ ([] : List (NodeId × Handler P))) := by
    intro m hm
    rw [hm k]
    simp
  cases n with
  | text j u =>
    obtain ⟨x, v, rfl⟩ := hs.exists_updateText
    exact hsame _ fun _ => Iff.rfl
  | element i tag as cs =>
    cases p with
    | addChild x j c =>
      refine (mem_handlers_insert hs.2.2.1).trans (or_congr_left ?_)
      exact (and_iff_left List.not_mem_nil).symm
    | addText x j c =>
      refine (mem_handlers_insert hs.2.2.1).trans (or_congr_left ?_)
      exact (and_iff_left List.not_mem_nil).symm
    | removeChild x c =>
      refine (mem_handlers_remove hn hs.1).trans ?_
      exact (or_iff_left List.not_mem_nil).symm
    | removeText x y =>
      obtain ⟨c, hc, rfl, htext⟩ := hs
      refine hsame _ fun k => (mem_handlers_remove hn hc).trans (and_iff_left ?_)
      rw [Node.handlerIds, handlers_of_isText htext]
      exact List.not_mem_nil
    | replaceChild x old new =>
      obtain ⟨m, hm, hid, h⟩ := hs
      exact mem_handlers_replace hn hm hid h
    | reorderChildren x order =>
      have hnd := Node.nodup_children_of_marks hn
      have hperm := (map_id_find?_of_perm hs.2 hnd).2
      refine hsame _ fun k => ?_
      rw [act, Node.withChildren, Node.mem_handlers_element, Node.mem_handlers_element]
      exact or_congr_right (exists_congr fun c => and_congr_left fun _ => hperm.mem_iff)
    | updateAttribute x old new =>
      obtain ⟨hk, hold, -, -⟩ := hs
      refine (mem_handlers_attributes hn hold fun b => mem_put_iff hk hold).trans
        (or_congr_right ?_)
      obtain rfl := Option.some.inj ht
      rw [incoming, mem_incoming_iff, Option.mem_some]
    | addAttribute x a =>
      obtain rfl : x = i := Option.some.inj ht
      rw [incoming, mem_incoming_iff]
      refine mem_handlers_append.trans (or_congr_left ?_)
      exact (and_iff_left List.not_mem_nil).symm
    | removeAttribute x a =>
      obtain ⟨hk, ha⟩ := hs
      refine (mem_handlers_attributes hn ha fun b => mem_drop_iff hk ha).trans ?_
      exact or_congr_right (iff_of_false (fun h => Option.not_mem_none _ h.2) List.not_mem_nil)
    | updateText x u => exact hsame _ fun _ => Iff.rfl

/-! ### In the whole tree -/

theorem mem_handlers_plug {C : Context P} {n m : Node P} {out : List HandlerId}
    {inn : List (NodeId × Handler P)}
    (h : ∀ k, k ∈ m.handlers ↔ (k ∈ n.handlers ∧ k.2.id ∉ out) ∨ k ∈ inn)
    (hclear : ∀ x ∈ out, .handler x ∉ C.marks true) (k : NodeId × Handler P) :
    k ∈ (C.plug m).handlers ↔ (k ∈ (C.plug n).handlers ∧ k.2.id ∉ out) ∨ k ∈ inn := by
  -- A level of the context adds handlers of its own and of siblings; by `hclear` none of them goes.
  induction C with
  | hole => exact h k
  | under i tag as before inner after ih =>
    have hinner := ih fun x hx hm => hclear x hx (by
      simp only [Context.marks, List.mem_cons, List.mem_append]
      exact Or.inr (Or.inr (Or.inl (Or.inr hm))))
    have hown : .handler k.2 ∈ as → k.2.id ∉ out := by
      intro ha hx
      refine hclear _ hx ?_
      simp only [Context.marks, List.mem_cons, List.mem_append]
      exact Or.inr (Or.inl (List.mem_flatMap.mpr
        ⟨_, ha, Node.handler_mem_attribute_marks_iff.mpr ⟨rfl, _, rfl, rfl⟩⟩))
    have hbeside : ∀ c, c ∈ before ∨ c ∈ after → k ∈ c.handlers → k.2.id ∉ out := by
      intro c hc hk hx
      refine hclear _ hx ?_
      have hmark := Node.handler_mem_marks_of_mem hk
      simp only [Context.marks, List.mem_cons, List.mem_append]
      rcases hc with hc | hc
      · exact Or.inr (Or.inr (Or.inl (Or.inl (List.mem_flatMap.mpr ⟨c, hc, hmark⟩))))
      · exact Or.inr (Or.inr (Or.inr (List.mem_flatMap.mpr ⟨c, hc, hmark⟩)))
    rw [Context.plug, Context.plug, Node.mem_handlers_element, Node.mem_handlers_element]
    simp only [List.mem_append, List.mem_cons]
    constructor
    · rintro (⟨hid, ha⟩ | ⟨c, hc | rfl | hc, hk⟩)
      · exact Or.inl ⟨Or.inl ⟨hid, ha⟩, hown ha⟩
      · exact Or.inl ⟨Or.inr ⟨c, Or.inl hc, hk⟩, hbeside c (Or.inl hc) hk⟩
      · exact (hinner.mp hk).imp_left (And.imp_left fun hk => Or.inr ⟨_, Or.inr (Or.inl rfl), hk⟩)
      · exact Or.inl ⟨Or.inr ⟨c, Or.inr (Or.inr hc), hk⟩, hbeside c (Or.inr hc) hk⟩
    · rintro (⟨⟨hid, ha⟩ | ⟨c, hc | rfl | hc, hk⟩, hno⟩ | hk)
      · exact Or.inl ⟨hid, ha⟩
      · exact Or.inr ⟨c, Or.inl hc, hk⟩
      · exact Or.inr ⟨_, Or.inr (Or.inl rfl), hinner.mpr (Or.inl ⟨hk, hno⟩)⟩
      · exact Or.inr ⟨c, Or.inr (Or.inr hc), hk⟩
      · exact Or.inr ⟨_, Or.inr (Or.inl rfl), hinner.mpr (Or.inr hk)⟩

/-- The handlers of a tree after a patch that leads on from it. -/
theorem Leads.mem_handlers_iff {t t' : Node P} (h : p.Leads true t t')
    (ht : (t.marks true).Nodup) (k : NodeId × Handler P) :
    k ∈ t'.handlers ↔ (k ∈ t.handlers ∧ k.2.id ∉ p.outgoing) ∨ k ∈ p.incoming := by
  cases h with
  | intro C n target suits clear =>
    have hn := ((C.marks_plug n).nodup_iff.mp ht).of_append_left
    exact mem_handlers_plug (mem_handlers_act suits hn target)
      (fun x hx => clear _ (outgoing_touched hx)) k

theorem Leads.old_mem_handlers {t t' : Node P} {x : NodeId} {j : Handler P} {new : Attribute P}
    (h : (updateAttribute x (.handler j) new).Leads true t t') : (x, j) ∈ t.handlers := by
  cases h with
  | intro C n target suits clear =>
    obtain rfl : x = n.id := Option.some.inj target
    exact Node.mem_handlers_iff.mpr ⟨n, C.mem_subtrees_plug n, rfl, suits.2.1⟩

end Patch

end ViewLoop
