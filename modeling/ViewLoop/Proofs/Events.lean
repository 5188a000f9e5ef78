import ViewLoop.Proofs.Running

/-!
# Events of a running session

The handler table of a running session holds the handlers of the live tree, and these answer as
those of the current view do. So an event for a live handler yields the message of the current view,
and any other one yields nothing (`Session.deliver_live`).
-/

namespace ViewLoop

namespace Node

variable {P : Type}

/-- What a tree listens to, in pre-order: each event, and what its handler does. -/
def answers (n : Node P) : List (String × P) := n.handlers.map fun k => (k.2.event, k.2.payload)

theorem answers_element (i : NodeId) (tag : String) (as : List (Attribute P))
    (cs : List (Node P)) :
    (element i tag as cs).answers
      = (as.filterMap Attribute.handler?).map (fun h => (h.event, h.payload))
        ++ cs.flatMap answers := by
  rw [answers, handlers, forestHandlers_eq_flatMap, List.map_append, List.map_map,
    List.map_flatMap]
  rfl

theorem handler?_bare (as : List (Attribute P)) :
    ((as.map Attribute.bare).filterMap Attribute.handler?).map (fun h => (h.event, h.payload))
      = (as.filterMap Attribute.handler?).map fun h => (h.event, h.payload) := by
  induction as with
  | nil => rfl
  | cons a as ih =>
    cases a with
    | plain name value => exact ih
    | handler h => exact congrArg ((h.event, h.payload) :: ·) ih

mutual

/-- A tree without repeated handlers answers as it says. -/
theorem answers_described : ∀ n : Node P, n.Labelled → n.described.answers = n.answers
  | element i tag as cs, h => by
    obtain ⟨has, hcs⟩ := labelled_element.mp h
    rw [described, answers_element, answers_element, answers_describedForest cs hcs,
      Alignment.describedAttributes,
      Alignment.dropRepeated_eq_self has fun _ h => absurd h List.not_mem_nil, handler?_bare]
  | text i s, _ => rfl

theorem answers_describedForest : ∀ cs : List (Node P), (∀ c ∈ cs, c.Labelled) →
    (describedForest cs).flatMap answers = cs.flatMap answers
  | [], _ => rfl
  | c :: cs, h => by
    rw [describedForest, List.flatMap_cons, List.flatMap_cons,
      answers_described c (h c List.mem_cons_self),
      answers_describedForest cs fun d hd => h d (List.mem_cons_of_mem _ hd)]

end

end Node

/-! ### Delivery -/

theorem Registry.Holds.get?_of_mem {P : Type} {r : Registry P} {t : Node P} (h : r.Holds t)
    {e : NodeId} {k : Handler P} (hk : (e, k) ∈ t.handlers) : r.get? k.id = some k :=
  (h k.id k).mpr ⟨e, hk, rfl⟩

theorem Registry.Holds.get?_eq_none {P : Type} {r : Registry P} {t : Node P} (h : r.Holds t)
    {id : HandlerId} (hid : id ∉ t.handlerIds) : r.get? id = none := by
  cases hg : r.get? id with
  | none => rfl
  | some k =>
    obtain ⟨w, hw, hkid⟩ := (h id k).mp hg
    exact absurd (List.mem_map.mpr ⟨(w, k), hw, hkid⟩) hid

namespace Session

variable {Flags Model M D E X : Type} [Decodes D M] {s : Session Model M D X} {id : HandlerId}
  {h : Handler (Response D M)} {data : Option Value}

theorem deliver_of_message (hg : s.scene.table.get? id = some h) (ho : s.mailbox.isOpen = true)
    {m : M} (hm : h.payload.resolve data = .ok m) :
    deliver id data s = (.enqueued, { s with mailbox := s.mailbox.post m }) := by
  have hsent : s.mailbox.deliver s.scene.table id data = (.enqueued, s.mailbox.post m) := by
    simp only [Mailbox.deliver, Registry.dispatch, hg, hm, Mailbox.send?, ho, if_true]
  simp only [deliver, hsent, Delivery.warnings, List.append_nil]

theorem deliver_of_undecodable (hg : s.scene.table.get? id = some h) {cause : DecodeError}
    (hm : h.payload.resolve data = .error cause) :
    (deliver id data s).1 = .undecodable cause ∧ (deliver id data s).2.mailbox = s.mailbox := by
  have hsent : s.mailbox.deliver s.scene.table id data = (.undecodable cause, s.mailbox) := by
    simp only [Mailbox.deliver, Registry.dispatch, hg, hm]
  simp only [deliver, hsent, and_self]

theorem deliver_of_unknown (hg : s.scene.table.get? id = none) (data : Option Value) :
    deliver id data s = (.unknownHandler, s) := by
  have hsent := Mailbox.deliver_of_get?_none (b := s.mailbox) hg data
  simp only [deliver, hsent, Delivery.warnings, List.append_nil]

variable [DecidableEq M] [DecidableEq D] {p : Program Flags Model M D E X}

/-- The table of a running session holds the handlers of the live tree, and nothing else. They answer
as the current view does. Each of them listens on its element, and an event for it posts the message
that it resolves to, if there is one; an event for any other handler posts nothing. After any event
the session runs on. -/
theorem deliver_live (hp : p.Admissible) {s : Session Model M D X} (hs : Running p s) :
    ∃ live, s.live = some live ∧ s.scene.table.Holds live.body
      ∧ live.body.answers = (p.view live.model).body.described.answers
      ∧ (∀ e h, (e, h) ∈ live.body.handlers →
        s.scene.surface.listener? e h.event = some h.id
          ∧ ∀ data : Option Value,
            (∀ m, h.payload.resolve data = .ok m →
              deliver h.id data s = (.enqueued, { s with mailbox := s.mailbox.post m }))
            ∧ ∀ cause, h.payload.resolve data = .error cause →
              (deliver h.id data s).1 = .undecodable cause
                ∧ (deliver h.id data s).2.mailbox = s.mailbox)
      ∧ (∀ id, id ∉ live.body.handlerIds → ∀ data : Option Value,
        deliver id data s = (.unknownHandler, s))
      ∧ ∀ id (data : Option Value), Running p (deliver id data s).2 := by
  obtain ⟨live, hcurrent⟩ := hs.current hp
  obtain ⟨hmirrors, hlabelled, -, hholds⟩ := hcurrent.presents.inStep
  refine ⟨live, hcurrent.presents.live_eq, hholds, ?_, fun e h hk => ⟨?_, fun data => ?_⟩, ?_,
    hs.deliver⟩
  · rw [← hcurrent.follows.body, Node.answers_described live.body hlabelled]
  · exact hmirrors.listener? hlabelled hk
  · have hget := hholds.get?_of_mem hk
    exact ⟨fun m hm => deliver_of_message hget hcurrent.isOpen hm,
      fun cause hm => deliver_of_undecodable hget hm⟩
  · exact fun id hid data => deliver_of_unknown (hholds.get?_eq_none hid) data

/-- A switch that has a second handler for the same event: the click is answered by the first. -/
theorem deliver_live_of_switch :
    let p : Program Unit Bool Bool Empty Empty Unit := {
      init := fun _ _ => (false, .none)
      update := fun on _ => (on, .none)
      view := fun on => {
        title := "switch"
        body := .element .unassigned "main" []
          [.element (.keyed "switch") (if on then "strong" else "em")
            [.handler ⟨"click", .invalid, .message (!on)⟩,
              .handler ⟨"click", .invalid, .message on⟩] [.text .unassigned "switch"]] }
      urlChanged := fun _ => false
      effectFailed := fun _ => false
      execute := none }
    let s := finalState ((process p true).run
      (finalState ((start p ()).run (fresh {} { scheme := "app", path := .segments [] } ()))))
    p.Admissible ∧ ∃ live, s.live = some live ∧ ∃ e h, (e, h) ∈ live.body.handlers
      ∧ deliver h.id none s
        = (.enqueued, { s with mailbox := s.mailbox.post (!live.model) }) := by
  intro p s
  have hp : p.Admissible := fun on => by cases on <;> decide
  obtain ⟨live, hlive, -, hanswers, hdeliver, -⟩ :=
    deliver_live hp (s := s) (.process (.start _ _ _ _) true)
  have hview : ("click", .message (!live.model)) ∈ (p.view live.model).body.described.answers := by
    cases live.model <;> decide
  rw [← hanswers, Node.answers, List.mem_map] at hview
  obtain ⟨⟨e, h⟩, hk, heq⟩ := hview
  have hpayload : h.payload = .message (!live.model) := (Prod.ext_iff.mp heq).2
  refine ⟨hp, live, hlive, e, h, hk, ((hdeliver e h hk).2 none).1 _ ?_⟩
  rw [hpayload, Response.resolve_message]

end Session

end ViewLoop
