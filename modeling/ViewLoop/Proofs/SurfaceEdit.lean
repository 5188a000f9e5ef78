import ViewLoop.Proofs.ChildEdits

/-!
# Patches on a surface

Applying a patch to a surface that shows a tree is editing the tree: the patch is accepted iff it
fits the tree, and the surface then shows the edited tree (`Surface.apply_decides`). A refused patch
leaves the surface as it was.
-/

namespace ViewLoop.Surface

variable {P : Type} {s : Surface} {t n : Node Unit}

/-! ### Patches -/

theorem Decides.congr {op : Edit Unit} {fits fits' : Prop} (h : s.Decides op fits t)
    (hf : fits' ↔ fits) : s.Decides op fits' t :=
  ⟨fun hp => h.accepts (hf.mp hp), fun hp => h.refuses (mt hf.mpr hp)⟩

theorem fits_of_entering_none {p : Patch P} {x : NodeId} (hp : p.target = some x)
    (he : p.entering = none) : p.Fits t ↔ ∃ n ∈ t.subtrees, n.id = x ∧ p.Allowed n := by
  have hr : p.Reaches t ↔ ∃ n ∈ t.subtrees, n.id = x ∧ p.Allowed n := by
    simp only [Patch.Reaches, hp]
  constructor
  · exact fun h => hr.mp h.reaches
  · intro h
    refine ⟨hr.mpr h, ?_, ?_, ?_⟩ <;> rw [he] <;> exact fun c hc => nomatch hc

theorem fits_of_entering_some {p : Patch P} {x : NodeId} {c : Node P} (hp : p.target = some x)
    (he : p.entering = some c) :
    p.Fits t ↔ (∃ n ∈ t.subtrees, n.id = x ∧ p.Allowed n)
      ∧ (∀ y ∈ c.ids, y.isAssigned = true) ∧ c.ids.Nodup
      ∧ ∀ y ∈ c.ids, y ∈ t.ids → ∃ m ∈ t.subtrees, p.replaced = some m.id ∧ y ∈ m.ids := by
  have hr : p.Reaches t ↔ ∃ n ∈ t.subtrees, n.id = x ∧ p.Allowed n := by
    simp only [Patch.Reaches, hp]
  constructor
  · exact fun h => ⟨hr.mp h.reaches, h.assigned c he, h.nodup c he, h.free c he⟩
  · rintro ⟨h1, h2, h3, h4⟩
    refine ⟨hr.mpr h1, fun d hd => ?_, fun d hd => ?_, fun d hd => ?_⟩ <;>
      obtain rfl : c = d := Option.some.inj (he.symm.trans hd)
    · exact h2
    · exact h3
    · exact h4

/-- A patch that brings in a node is refused for a node of the other kind, and otherwise inserts
it. -/
theorem insertion_decides (hs : s.Shows t) {p : Patch P} {x : NodeId} {index : Nat}
    {child : Node P} {kind : Bool} (htarget : p.target = some x) (hentering : p.entering = some child)
    (hreplaced : p.replaced = none)
    (hallowed : ∀ n : Node Unit, p.Allowed n
      ↔ child.isText = kind ∧ n.isText = false ∧ index ≤ n.children.length)
    (happly : apply p = if child.isText = kind then insertChild x index child
      else throw (.wrongNodeKind child.id)) :
    s.Decides (apply p) (p.Fits t)
      (t.modify x (Node.withChildren (·.insertIdx index child.erased))) := by
  have hfit : p.Fits t ↔ child.isText = kind
      ∧ (∃ n ∈ t.subtrees, n.id = x ∧ n.isText = false ∧ index ≤ n.children.length)
      ∧ (∀ y ∈ child.ids, y.isAssigned = true) ∧ child.ids.Nodup
      ∧ ∀ y ∈ child.ids, y ∉ t.ids := by
    rw [fits_of_entering_some htarget hentering]
    simp only [hallowed, hreplaced, reduceCtorEq, false_and, and_false, exists_false]
    constructor
    · rintro ⟨⟨n, hn, hid, hkind, ha⟩, hrest⟩
      exact ⟨hkind, ⟨n, hn, hid, ha⟩, hrest⟩
    · rintro ⟨hkind, ⟨n, hn, hid, ha⟩, hrest⟩
      exact ⟨⟨n, hn, hid, hkind, ha⟩, hrest⟩
  by_cases hkind : child.isText = kind
  · rw [happly, if_pos hkind]
    exact (insertChild_decides hs x index child).congr (hfit.trans (and_iff_right hkind))
  · rw [happly, if_neg hkind]
    exact .of_refuses (fun h => hkind (hfit.mp h).1) ⟨.wrongNodeKind child.id, rfl⟩

/-- A patch is accepted iff it fits the tree that is shown, and the edited tree is shown then. -/
theorem apply_decides (hs : s.Shows t) (p : Patch P) :
    s.Decides (apply p) (p.Fits t) (p.erased.edit t) := by
  -- Each operation was decided on its own; what is left is to read off what the patch asks for.
  cases p with
  | addChild x index child =>
    refine insertion_decides hs rfl rfl rfl (fun _ => Iff.rfl) ?_
    rw [apply]
    cases child.isText <;> rfl
  | addText x index child =>
    refine insertion_decides hs rfl rfl rfl (fun _ => Iff.rfl) ?_
    rw [apply]
  | removeChild x child =>
    have hedit : (Patch.removeChild x child).erased.edit t
        = t.modify x (Node.withChildren (·.filter fun d => d.id ≠ child.id)) := by
      rw [← Node.id_map (fun _ => ()) child]
      rfl
    rw [hedit]
    exact (removeChild_decides hs x child.id false).congr (fits_of_entering_none rfl rfl)
  | removeText x y =>
    exact (removeChild_decides hs x y true).congr (fits_of_entering_none rfl rfl)
  | replaceChild x old new =>
    cases x with
    | some x =>
      have hedit : (Patch.replaceChild (some x) old new).erased.edit t = t.modify x
          (Node.withChildren (·.map fun d => if d.id = old.id then new.erased else d)) := by
        rw [← Node.id_map (fun _ => ()) old]
        rfl
      rw [hedit]
      refine (replaceChild_decides hs x old.id new).congr ?_
      rw [fits_of_entering_some rfl rfl]
      have hsym : ∀ m : Node Unit, (Patch.replaceChild (some x) old new).replaced = some m.id
          ↔ m.id = old.id := fun m =>
        ⟨fun h => (Option.some.inj h).symm, fun h => congrArg some h.symm⟩
      simp only [Patch.Allowed, hsym]
    | none =>
      refine (replaceRoot_decides hs old.id new).congr ?_
      constructor
      · intro h
        have hid : some old.id = some t.id := h.reaches
        exact ⟨Option.some.inj hid, h.assigned new rfl, h.nodup new rfl⟩
      · rintro ⟨h1, h2, h3⟩
        refine ⟨congrArg some h1, fun c hc => ?_, fun c hc => ?_, fun c hc y _ hyt => ?_⟩
        · obtain rfl : new = c := Option.some.inj hc
          exact h2
        · obtain rfl : new = c := Option.some.inj hc
          exact h3
        · exact ⟨t, t.self_mem_subtrees, congrArg some h1, hyt⟩
  | reorderChildren x order =>
    exact (reorderChildren_decides hs x order).congr (fits_of_entering_none rfl rfl)
  | updateAttribute x old new =>
    have h := updateAttribute_decides hs x old new
    rw [← Attribute.key_map (fun _ => ()) old] at h
    refine h.congr ?_
    rw [fits_of_entering_none rfl rfl]
    simp only [Patch.Allowed, Attribute.key_map]
    refine exists_congr fun n => and_congr_right fun _ => and_congr_right fun _ => ?_
    exact ⟨fun hk => ⟨Node.isText_eq_false_of_key_mem hk, hk⟩, And.right⟩
  | addAttribute x added =>
    exact (addAttribute_decides hs x added).congr (fits_of_entering_none rfl rfl)
  | removeAttribute x removed =>
    have h := removeAttribute_decides hs x removed
    rw [← Attribute.key_map (fun _ => ()) removed] at h
    refine h.congr ?_
    rw [fits_of_entering_none rfl rfl]
    simp only [Patch.Allowed, Attribute.key_map]
    refine exists_congr fun n => and_congr_right fun _ => and_congr_right fun _ => ?_
    exact ⟨fun hk => ⟨Node.isText_eq_false_of_key_mem hk, hk⟩, And.right⟩
  | updateText x text => exact (updateText_decides hs x text).congr (fits_of_entering_none rfl rfl)

/-- A first tree is accepted where nothing is shown, if it could be shown. -/
theorem render_decides (hroot : s.root = none) (hempty : s.arena.nodes = []) (root : Node P)
    (handle : SurfaceHandle) :
    s.Decides (render root handle) ((∀ x ∈ root.ids, x.isAssigned = true) ∧ root.ids.Nodup)
      root.erased := by
  have hnot : ¬s.root.isSome = true := by simp [hroot]
  by_cases hcheck : s.arena.checkInsertable [] root = .ok ()
  · obtain ⟨h1, h2, -⟩ := Arena.checkInsertable_eq_ok_iff.mp hcheck
    refine .of_accepts ⟨h1, h2⟩
      ⟨s.arena.insertTree none root, some root.id, some handle, ?_,
        shows_insertTree hempty h1 h2⟩
    rw [render, run_get_bind, if_neg hnot]
    simp only [run_get_bind, hcheck, run_require_ok_bind, run_modifyArena_bind, run_modify]
  · obtain ⟨e, he⟩ := exists_error_of_ne_ok hcheck
    refine .of_refuses ?_ ⟨e, ?_⟩
    · rintro ⟨h1, h2⟩
      refine hcheck (Arena.checkInsertable_eq_ok_iff.mpr ⟨h1, h2, fun z _ hz => ?_⟩)
      rw [hempty] at hz
      exact absurd hz List.not_mem_nil
    · rw [render, run_get_bind, if_neg hnot]
      simp only [run_get_bind, he, run_require_error_bind]

theorem render_refuses (hs : s.Shows t) (root : Node P) (handle : SurfaceHandle) :
    s.Refuses (render root handle) := by
  refine ⟨.alreadyRendered, ?_⟩
  have hsome : s.root.isSome = true := by simp [hs.root]
  rw [render, run_get_bind, if_pos hsome]
  rfl

end ViewLoop.Surface
