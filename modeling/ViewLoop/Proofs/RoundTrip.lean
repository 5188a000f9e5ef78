import ViewLoop.Proofs.Reachable
import ViewLoop.Proofs.UpdatePass

/-!
# Differences on a surface

The passes put together: the patches of a difference are a course from the old tree to a tree that
is like the new one (`Difference.course_patches`). A surface that mirrors the tree a course starts
from takes every patch of it, and mirrors the tree that it ends with (`Surface.Mirrors.take`). So a
surface that was reached in any way, and gives back a tree like the old one, takes the patches of
a difference and then gives back a tree like the new one (`Surface.apply_patches`).
-/

namespace ViewLoop

namespace Difference

variable {P : Type} {w : Bool} {known : HandlerId → Prop} {old new : Node P}

/-! ### The passes in a row -/

theorem node_none_eq [DecidableEq P] (h : Revision w known live old new)
    (hs : old.SameShape new) (parent : NodeId) : node none old new = node (some parent) old new := by
  cases old with
  | text i s =>
    cases new with
    | text j u => rfl
    | element j other bs ds => exact absurd hs (by simp [Node.SameShape, Node.tag?])
  | element i tag as cs =>
    cases new with
    | text j u => exact absurd hs (by simp [Node.SameShape, Node.tag?])
    | element j other bs ds =>
      obtain rfl : tag = other := Option.some.inj hs
      obtain rfl : i = j := h.id_eq
      rw [node_inPlace none _ _ _ _ _ _ h.nodup_new, node_inPlace _ _ _ _ _ _ _ h.nodup_new]

/-- The patches between two roots of one shape, pass by pass. -/
theorem course_patches [DecidableEq P] (h : Revision w known new.ids old new)
    (hs : old.SameShape new) : ∃ t, Course w old (patches old new) t ∧ t.Alike new := by
  obtain ⟨t, hupdates, halike⟩ := (course_updates h (some old.id)).1
  -- The passes lead over trees that are neither old nor new: `merge stay`, `merge stripped` and
  -- `merge arrive`.
  refine ⟨t, ?_, halike⟩
  have hchanges : changes old new = node (some old.id) old new := by
    rw [changes, if_pos h.id_eq, node_none_eq h hs]
  rw [patches, hchanges]
  have hremovals := (course_removals h (some old.id)).1
  have hescapes := (course_escapes h old.id).1
  have hreplacements := (course_replacements h (some old.id)).1 hs
  exact ((hremovals.append hescapes).append hreplacements).append hupdates

/-- Roots that do not match are replaced as they are. -/
theorem patches_apart [DecidableEq P] (h : ¬(old.id = new.id ∧ old.SameShape new)) :
    patches old new = [.replaceChild none old new] := by
  have hchanges : changes old new = .replacement none old new := by
    rw [changes]
    split
    · rename_i hid
      exact node_apart none fun hs => h ⟨hid, hs⟩
    · rfl
  rw [patches, hchanges]
  rfl

/-- Two tidy trees of one root, with no eye on their handlers. -/
theorem revision_of_tidy (ho : old.Tidy) (hn : new.Tidy) (hid : old.id = new.id) :
    Revision false (fun _ => True) new.ids old new := by
  have hmarks : ∀ n : Node P, n.Tidy → (n.marks false).Nodup := by
    intro n h
    rw [Node.marks_false]
    exact h.nodup.map fun _ _ e => Mark.node.inj e
  exact ⟨ho, hn, hmarks old ho, hmarks new hn, fun _ _ h => absurd h (by simp),
    fun h => absurd h (by simp), List.Subset.refl _, hid⟩

end Difference

/-- Any tidy tree may take the place of a root. -/
theorem Patch.fits_replaceRoot {P : Type} {old new : Node P} (hn : new.Tidy) :
    (replaceChild none old new).Fits old := by
  refine ⟨rfl, ?_, ?_, ?_⟩
  all_goals
    intro c hc
    obtain rfl : new = c := Option.some.inj hc
  · exact hn.assigned
  · exact hn.nodup
  · exact fun x _ hx => ⟨old, old.self_mem_subtrees, rfl, hx⟩

namespace Surface

variable {P : Type} {w : Bool} {s s' : Surface} {t t' : Node P}

/-! ### Mirrored trees -/

/-- The surface shows the tree, up to the order of attributes and the payloads of handlers. -/
def Mirrors (s : Surface) (t : Node P) : Prop := ∃ u, s.Shows u ∧ u.Alike t.erased

/-- Only the live nodes of the second surface are other ones, and the handle of what it shows. -/
def NodesOnly (s s' : Surface) : Prop := ∃ a r h, s' = { s with arena := a, root := r, handle := h }

@[refl] theorem NodesOnly.refl (s : Surface) : s.NodesOnly s := ⟨s.arena, s.root, s.handle, rfl⟩

theorem NodesOnly.trans {s'' : Surface} (h : s.NodesOnly s') (h' : s'.NodesOnly s'') :
    s.NodesOnly s'' := by
  obtain ⟨a, r, handle, rfl⟩ := h
  obtain ⟨a', r', handle', rfl⟩ := h'
  exact ⟨a', r', handle', rfl⟩

theorem Mirrors.tree_eq (h : s.Mirrors t) : ∃ u, s.tree = .ok u ∧ u.Alike t.erased := by
  obtain ⟨u, hu, halike⟩ := h
  exact ⟨u, hu.tree_eq, halike⟩

theorem Mirrors.of_alike (h : s.Mirrors t) (ha : t.Alike t') : s.Mirrors t' := by
  obtain ⟨u, hu, halike⟩ := h
  exact ⟨u, hu, halike.trans (ha.map _)⟩

/-- A patch that fits the mirrored tree is taken. -/
theorem Mirrors.apply_of_fits (h : s.Mirrors t) {p : Patch P} (hp : p.Fits t)
    (hk : ∀ n ∈ t.subtrees, p.target = some n.id → p.KeysApart n) :
    ∃ s', (apply p).run s = .ok () s' ∧ s.NodesOnly s' ∧ s'.Mirrors (p.edit t) := by
  obtain ⟨u, hu, halike⟩ := h
  have hfits : p.Fits u := Patch.fits_alike halike.symm ((Patch.fits_map _ t p).mpr hp)
  obtain ⟨a, r, handle, hrun, hshows⟩ := (apply_decides hu p).accepts hfits
  refine ⟨_, hrun, ⟨a, r, handle, rfl⟩, _, hshows, ?_⟩
  rw [Node.erased, Patch.edit_map]
  refine (Patch.edit_alike halike.symm fun n hn hid => ?_).symm
  rw [Node.erased, Node.subtrees_map, List.mem_map] at hn
  obtain ⟨m, hm, rfl⟩ := hn
  rw [Patch.erased, Patch.target_map, Node.id_map] at hid
  exact Patch.keysApart_map _ (hk m hm hid)

theorem Mirrors.apply (h : s.Mirrors t) {p : Patch P} (hp : p.Leads w t t') (ht : t.ids.Nodup) :
    ∃ s', (Surface.apply p).run s = .ok () s' ∧ s.NodesOnly s' ∧ s'.Mirrors t' := by
  have := h.apply_of_fits hp.fits (hp.keysApart ht)
  rwa [hp.edit_eq ht] at this

theorem Mirrors.take (h : s.Mirrors t) {ps : List (Patch P)} (hps : Course w t ps t')
    (ht : (t.marks w).Nodup) :
    ∃ s', (ps.forM Surface.apply).run s = .ok () s' ∧ s.NodesOnly s' ∧ s'.Mirrors t' := by
  induction hps generalizing s with
  | nil => exact ⟨s, rfl, .refl s, h⟩
  | cons hp _ ih =>
    obtain ⟨s₁, hrun, hnodes, hmirrors⟩ := h.apply hp (Node.nodup_ids_of_marks ht)
    obtain ⟨s₂, hrun', hnodes', hmirrors'⟩ := ih hmirrors (hp.nodup_marks ht)
    refine ⟨s₂, ?_, hnodes.trans hnodes', hmirrors'⟩
    rw [run_forM_cons_of_ok hrun]
    exact hrun'

/-! ### The round trip -/

/-- The patches of a difference are taken one and all, and lead to the new tree. -/
theorem Mirrors.take_patches [DecidableEq P] {old new : Node P} (h : s.Mirrors old)
    (ho : old.Tidy) (hn : new.Tidy) :
    ∃ s', ((Difference.patches old new).forM Surface.apply).run s = .ok () s' ∧ s.NodesOnly s'
      ∧ s'.Mirrors new := by
  by_cases hroot : old.id = new.id ∧ old.SameShape new
  · have hrev := Difference.revision_of_tidy ho hn hroot.1
    obtain ⟨t, hcourse, halike⟩ := Difference.course_patches hrev hroot.2
    obtain ⟨s', hrun, hnodes, hmirrors⟩ := h.take hcourse hrev.oldMarks
    exact ⟨s', hrun, hnodes, hmirrors.of_alike halike⟩
  · rw [Difference.patches_apart hroot]
    obtain ⟨s', hrun, hnodes, hmirrors⟩ := h.apply_of_fits (Patch.fits_replaceRoot hn)
      fun _ _ he => nomatch he
    refine ⟨s', ?_, hnodes, hmirrors⟩
    rw [run_forM_cons_of_ok hrun]
    rfl

/-- A surface that was reached in any way and gives back a tree like the old one takes every patch
of a difference, and then gives back a tree like the new one. -/
theorem apply_patches [DecidableEq P] {old new : Node P} (ho : old.Tidy) (hn : new.Tidy)
    {u : Node Unit} (hs : s.Reachable) (hu : s.tree = .ok u) (hlike : u.Alike old.erased) :
    ∃ s' v, ((Difference.patches old new).forM Surface.apply).run s = .ok () s'
      ∧ s'.tree = .ok v ∧ v.Alike new.erased := by
  have hmirrors : s.Mirrors old := ⟨u, hs.shows_of_tree hu, hlike⟩
  obtain ⟨s', hrun, -, hnew⟩ := hmirrors.take_patches ho hn
  obtain ⟨v, hv, halike⟩ := hnew.tree_eq
  exact ⟨s', v, hrun, hv, halike⟩

/-- An element and the one below it change places, and a text moves out of the outer one, which
becomes a list. -/
theorem apply_patches_of_crossing :
    let old : Node Nat := .element (.keyed "page") "div" []
      [.element (.keyed "a") "section" [.identity (.keyed "a")]
        [.element (.keyed "b") "p" [.handler ⟨"click", ⟨1⟩, 5⟩] [], .text (.generated 1) "x"],
        .text (.generated 2) "y"]
    let new : Node Nat := .element (.keyed "page") "div" []
      [.element (.keyed "b") "p" [.plain "title" "t", .handler ⟨"click", ⟨1⟩, 6⟩]
        [.element (.keyed "a") "ul" [] [.text (.generated 3) "z"]],
        .text (.generated 1) "x"]
    let s := (Surface.fresh { scheme := "app", path := .segments [] }).after (.render Nat old)
    (old.Tidy ∧ new.Tidy ∧ s.Reachable ∧ s.tree = .ok old.erased)
      ∧ ∃ s' v, ((Difference.patches old new).forM Surface.apply).run s = .ok () s'
        ∧ s'.tree = .ok v ∧ v.Alike new.erased := by
  intro old new s
  have ho : old.Tidy := by decide
  have hn : new.Tidy := by decide
  have hs : s.Reachable := .after (.fresh _) _
  have hu : s.tree = .ok old.erased := by rfl
  exact ⟨⟨ho, hn, hs, hu⟩, apply_patches ho hn hs hu (.refl _)⟩

end Surface

end ViewLoop
