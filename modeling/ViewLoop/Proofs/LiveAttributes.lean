import ViewLoop.Proofs.Labels
import ViewLoop.Proofs.Representation

/-!
# Attributes of live elements

A surface checks the key of an attribute that is added, and not that of one that is put in the place
of another. So the elements of a surface keep their attribute keys apart through operations of any
kind, accepted or refused, as long as no update doubles a key (`Surface.Doubles`), and no longer
(`Surface.labelled_throughout_iff`). One such update is `Surface.repeats_key_of_update`.
-/

namespace ViewLoop

variable {P : Type}

/-- Whatever the operation brings in is labelled. -/
def SurfaceOp.BringsLabelled : SurfaceOp → Prop
  | .render _ root _ => root.Labelled
  | .apply _ p => ∀ c ∈ p.entering, c.Labelled
  | _ => True

namespace Surface

variable {s s' : Surface} {t n : Node Unit} {x : NodeId}

/-- No live element has two attributes of one key. -/
def Labelled (s : Surface) : Prop :=
  ∀ x r tag as, s.arena.get? x = some r → r.content = .element tag as →
    (as.map Attribute.key).Nodup

/-- The operation is an update that puts an attribute in the place of one of another key, on an
element that has an attribute of the new key already. -/
def Doubles (s : Surface) : SurfaceOp → Prop
  | .apply _ p => ∃ x as, p.target = some x ∧ s.arena.attributes x = .ok as ∧ p.Doubles as
  | _ => False

/-! ### Reading off the tree -/

theorem Shows.labelled_iff (hs : s.Shows t) : s.Labelled ↔ t.Labelled := by
  constructor
  · intro h n hn
    obtain ⟨q, hq⟩ := Arena.get?_of_mem_subtrees hs.distinct hs.entries_subset hn
    cases n with
    | element i tag as cs =>
      exact h i _ tag as hq (by simp only [Node.record, Node.content, Attribute.map_erased])
    | text i u => exact List.nodup_nil
  · intro h x r tag as hr hcontent
    obtain ⟨n, hn, q, rfl, rfl⟩ := Node.exists_of_mem_entries (hs.mem_entries_of_get? hr)
    cases n with
    | element i tag' bs cs =>
      simp only [Node.record, Node.content, Attribute.map_erased, NodeContent.element.injEq]
        at hcontent
      exact hcontent.2 ▸ h _ hn
    | text i u => cases hcontent

theorem Shows.attributes_eq_ok_iff (hs : s.Shows t) {as : List (Attribute Unit)} :
    s.arena.attributes x = .ok as
      ↔ ∃ n ∈ t.subtrees, n.id = x ∧ n.isText = false ∧ n.attributes = as := by
  constructor
  · intro h
    by_cases hx : x ∈ t.ids
    · obtain ⟨n, hn, rfl⟩ := Node.mem_ids_iff.mp hx
      cases hkind : n.isText with
      | true =>
        rw [hs.attributes_of_text hn hkind] at h
        exact nomatch h
      | false =>
        rw [hs.attributes_eq hn hkind, Except.ok.injEq] at h
        exact ⟨n, hn, rfl, hkind, h⟩
    · obtain ⟨e, he⟩ := hs.attributes_error hx
      rw [he] at h
      exact nomatch h
  · rintro ⟨n, hn, rfl, hkind, rfl⟩
    exact hs.attributes_eq hn hkind

theorem isText_eq_false_of_doubles {p : Patch P} (h : p.Doubles n.attributes) :
    n.isText = false := by
  cases p with
  | updateAttribute x old new => exact Node.isText_eq_false_of_key_mem h.2.1
  | _ => exact absurd h id

theorem Shows.doubles_apply_iff (hs : s.Shows t) (p : Patch P) :
    s.Doubles (.apply P p) ↔ ∃ n ∈ t.subtrees, p.target = some n.id ∧ p.Doubles n.attributes := by
  constructor
  · rintro ⟨x, as, htarget, has, h⟩
    obtain ⟨n, hn, rfl, -, rfl⟩ := hs.attributes_eq_ok_iff.mp has
    exact ⟨n, hn, htarget, h⟩
  · rintro ⟨n, hn, htarget, h⟩
    exact ⟨n.id, n.attributes, htarget, hs.attributes_eq hn (isText_eq_false_of_doubles h), h⟩

theorem fits_of_doubles {p : Patch P} (hn : n ∈ t.subtrees) (htarget : p.target = some n.id)
    (h : p.Doubles n.attributes) : p.Fits t := by
  cases p with
  | updateAttribute x old new =>
    exact (fits_of_entering_none htarget rfl).mpr ⟨n, hn, rfl, h.2.1⟩
  | _ => exact absurd h id

/-! ### One operation -/

theorem Shows.labelled_apply_iff (hs : s.Shows t) (hl : s.Labelled) (p : Patch P)
    (hc : ∀ c ∈ p.entering, c.Labelled) :
    (finalState ((apply p).run s)).Labelled ↔ ¬s.Doubles (.apply P p) := by
  by_cases hp : p.Fits t
  · have hshows := ((apply_decides hs p).accepts hp).finalState
    rw [hshows.labelled_iff, hs.doubles_apply_iff]
    exact Patch.labelled_edit_iff (hs.labelled_iff.mp hl) hs.nodup hp hc
  · rw [((apply_decides hs p).refuses hp).finalState, hs.doubles_apply_iff]
    refine iff_of_true hl ?_
    rintro ⟨n, hn, htarget, h⟩
    exact hp (fits_of_doubles hn htarget h)

theorem labelled_of_isEmpty (hs : s.IsEmpty) : s.Labelled := by
  intro x r tag as hr
  rw [Arena.get?, hs.2] at hr
  cases hr

theorem not_doubles_of_isEmpty (hs : s.IsEmpty) (op : SurfaceOp) : ¬s.Doubles op := by
  cases op with
  | apply P p =>
    rintro ⟨x, as, -, has, -⟩
    obtain ⟨e, he⟩ := hs.attributes x
    rw [he] at has
    exact nomatch has
  | _ => exact id

theorem SameNodes.labelled (h : SameNodes s s') (hl : s.Labelled) : s'.Labelled := by
  rw [Labelled, h.1]
  exact hl

/-- An operation leaves a labelled surface labelled iff it doubles no key. -/
theorem Reachable.labelled_after_iff (hs : s.Reachable) (hl : s.Labelled) {op : SurfaceOp}
    (hop : op.BringsLabelled) : (s.after op).Labelled ↔ ¬s.Doubles op := by
  cases op with
  | render P root handle =>
    refine iff_of_true ?_ id
    rcases hs.empty_or_shows with he | ⟨t, ht⟩
    · have hdecides := render_decides he.1 he.2 root handle
      by_cases hroot : (∀ x ∈ root.ids, x.isAssigned = true) ∧ root.ids.Nodup
      · exact (hdecides.accepts hroot).finalState.labelled_iff.mpr (hop.map _)
      · rw [Surface.after, (hdecides.refuses hroot).finalState]
        exact hl
    · rw [Surface.after, (render_refuses ht root handle).finalState]
      exact hl
  | apply P p =>
    rcases hs.empty_or_shows with he | ⟨t, ht⟩
    · refine iff_of_true ?_ (not_doubles_of_isEmpty he _)
      rw [Surface.after, (apply_of_isEmpty he p).finalState]
      exact hl
    · exact ht.labelled_apply_iff hl p hop
  | applyHead p => exact iff_of_true ((sameNodes_applyHead s p).labelled hl) id
  | setTitle title => exact iff_of_true (SameNodes.labelled ⟨rfl, rfl⟩ hl) id
  | pushUrl url => exact iff_of_true ((sameNodes_resolve s url fun _ => ⟨rfl, rfl⟩).labelled hl) id
  | replaceUrl url =>
    exact iff_of_true ((sameNodes_resolve s url fun _ => ⟨rfl, rfl⟩).labelled hl) id
  | loadUrl url => exact iff_of_true ((sameNodes_resolve s url fun _ => ⟨rfl, rfl⟩).labelled hl) id
  | bump start stop => exact iff_of_true ((sameNodes_bump s start stop).labelled hl) id

/-! ### Any number of operations -/

/-- A labelled surface stays labelled along a run iff no operation of the run doubles a key where it
comes. -/
theorem Reachable.labelled_foldl_iff (hs : s.Reachable) (hl : s.Labelled) {ops : List SurfaceOp}
    (hops : ∀ op ∈ ops, op.BringsLabelled) :
    (∀ before, before <+: ops → (before.foldl Surface.after s).Labelled)
      ↔ ∀ before op rest, ops = before ++ op :: rest → ¬(before.foldl Surface.after s).Doubles op := by
  induction ops generalizing s with
  | nil => simp [hl]
  | cons op ops ih =>
    have hstep := hs.labelled_after_iff hl (hops op List.mem_cons_self)
    have hrest := fun hl' => ih (hs.after op) hl' fun o ho => hops o (List.mem_cons_of_mem _ ho)
    constructor
    · intro h before o rest hsplit
      have hafter : (s.after op).Labelled := h [op] ⟨ops, rfl⟩
      rcases List.cons_eq_append_iff.mp hsplit with ⟨rfl, heq⟩ | ⟨before', rfl, heq⟩
      · obtain ⟨rfl, rfl⟩ := List.cons.inj heq
        exact hstep.mp hafter
      · refine (hrest hafter).mp (fun b hb => ?_) before' o rest heq
        exact h (op :: b) (List.cons_prefix_cons.mpr ⟨rfl, hb⟩)
    · intro h before hbefore
      have hafter : (s.after op).Labelled := hstep.mpr (h [] op ops rfl)
      rcases List.prefix_cons_iff.mp hbefore with rfl | ⟨before', rfl, hpre⟩
      · exact hl
      · refine (hrest hafter).mpr (fun b o rest hsplit => ?_) before' hpre
        exact h (op :: b) o rest (congrArg (op :: ·) hsplit)

/-- However many operations a surface has seen, accepted or refused: its elements have had their
attribute keys apart all along iff no update has doubled a key. -/
theorem labelled_throughout_iff (start : Url) (ops : List SurfaceOp)
    (hops : ∀ op ∈ ops, op.BringsLabelled) :
    (∀ before, before <+: ops → (before.foldl Surface.after (fresh start)).Labelled)
      ↔ ∀ before op rest, ops = before ++ op :: rest →
        ¬(before.foldl Surface.after (fresh start)).Doubles op :=
  (Reachable.fresh start).labelled_foldl_iff (labelled_of_isEmpty ⟨rfl, rfl⟩) hops

/-- A class becomes a language, and the title is to be added a second time, which is refused. -/
theorem labelled_throughout_iff_of_language :
    let page : Node Nat := .element (.keyed "app") "div"
      [.plain "class" "a", .plain "title" "t"] [.text (.generated 1) "x"]
    let ops : List SurfaceOp := [.render Nat page,
      .apply Nat (.updateAttribute (.keyed "app") (.plain "class" "a") (.plain "lang" "b")),
      .apply Nat (.addAttribute (.keyed "app") (.plain "title" "u"))]
    let start : Url := { scheme := "app", path := .segments [] }
    (∀ op ∈ ops, op.BringsLabelled)
      ∧ ∀ before, before <+: ops → (before.foldl Surface.after (fresh start)).Labelled := by
  intro page ops start
  have hops : ∀ op ∈ ops, op.BringsLabelled := by
    simp only [ops, List.forall_mem_cons]
    exact ⟨show page.Labelled by decide, nofun, nofun, nofun⟩
  refine ⟨hops, (labelled_throughout_iff start ops hops).mpr ?_⟩
  intro before op rest hsplit
  rcases List.cons_eq_append_iff.mp hsplit with ⟨rfl, h⟩ | ⟨before, rfl, h₁⟩
  · obtain ⟨rfl, -⟩ := List.cons.inj h
    exact id
  rcases List.cons_eq_append_iff.mp h₁ with ⟨rfl, h⟩ | ⟨before, rfl, h₂⟩
  · obtain ⟨rfl, -⟩ := List.cons.inj h
    rintro ⟨x, as, htarget, has, -, -, hmem⟩
    obtain rfl := Option.some.inj htarget
    obtain rfl : [.plain "class" "a", .plain "title" "t"] = as := Except.ok.inj has
    exact absurd hmem (by decide)
  rcases List.cons_eq_append_iff.mp h₂ with ⟨rfl, h⟩ | ⟨before, rfl, h₃⟩
  · obtain ⟨rfl, -⟩ := List.cons.inj h
    rintro ⟨x, as, -, -, h⟩
    exact h
  · exact absurd h₃ (by simp)

/-- A class becomes a second title. What an addition of the title is refused for, the update does. -/
theorem repeats_key_of_update :
    let page : Node Nat := .element (.keyed "app") "div"
      [.plain "class" "a", .plain "title" "t"] []
    let title : Attribute Nat := .plain "title" "u"
    let start : Url := { scheme := "app", path := .segments [] }
    let s := (fresh start).after (.render Nat page)
    let update := SurfaceOp.apply Nat (.updateAttribute (.keyed "app") (.plain "class" "a") title)
    page.Labelled ∧ update.BringsLabelled
      ∧ (apply (.addAttribute (.keyed "app") title)).run s
        = .error (.duplicateAttribute (.keyed "app") "title") s
      ∧ (s.after update).arena.attributes (.keyed "app")
        = .ok [.plain "title" "u", .plain "title" "t"]
      ∧ ¬(s.after update).Labelled := by
  intro page title start s update
  refine ⟨by decide, nofun, rfl, rfl, fun h => ?_⟩
  have hkeys := h (.keyed "app") _ "div" [.plain "title" "u", .plain "title" "t"] rfl rfl
  exact absurd hkeys (by decide)

end Surface

end ViewLoop
