import ViewLoop.Proofs.Representation

/-!
# Operations on reachable surfaces

What an operation does to a surface, said without its records. A reachable surface is an editor of
the tree that it gives back: it takes the patches that fit that tree, and no others, and what it
gives back next is the edited tree (`Surface.edits_foldl_after`). An operation that is refused
leaves the whole surface as it was (`Surface.unchanged_of_error`).
-/

namespace ViewLoop

namespace Surface

variable {P : Type} {s s' : Surface} {t : Node Unit}

/-! ### Results of an operation -/

theorem Accepts.exists_ok {op : Edit Unit} (h : s.Accepts op t) : ∃ s', op.run s = .ok () s' := by
  obtain ⟨a, r, handle, hrun, -⟩ := h
  exact ⟨_, hrun⟩

theorem Accepts.tree_eq {op : Edit Unit} (h : s.Accepts op t) (hrun : op.run s = .ok () s') :
    s'.tree = .ok t := by
  have hshows := h.finalState
  rw [hrun] at hshows
  exact hshows.tree_eq

theorem Refuses.not_ok {op : Edit Unit} (h : s.Refuses op) : ¬∃ s', op.run s = .ok () s' := by
  obtain ⟨e, he⟩ := h
  simp [he]

theorem Decides.ok_iff {op : Edit Unit} {fits : Prop} (h : s.Decides op fits t) :
    (∃ s', op.run s = .ok () s') ↔ fits := by
  constructor
  · intro hok
    by_contra hf
    exact (h.refuses hf).not_ok hok
  · exact fun hf => (h.accepts hf).exists_ok

theorem Decides.tree_eq {op : Edit Unit} {fits : Prop} (h : s.Decides op fits t)
    (hrun : op.run s = .ok () s') : s'.tree = .ok t :=
  (h.accepts (h.ok_iff.mp ⟨s', hrun⟩)).tree_eq hrun

/-! ### Editing -/

/-- The surface takes what can be done to the tree that it gives back, or to no tree at all, and
gives back the outcome. -/
structure Edits (s : Surface) : Prop where
  apply_ok_iff : ∀ {P : Type} (p : Patch P),
    (∃ s', (apply p).run s = .ok () s') ↔ ∃ t, s.tree = .ok t ∧ p.Fits t
  apply_tree : ∀ {P : Type} (p : Patch P) {s' : Surface} {t : Node Unit}, s.tree = .ok t →
    (apply p).run s = .ok () s' → s'.tree = .ok (p.erased.edit t)
  render_ok_iff : ∀ {P : Type} (root : Node P) (handle : SurfaceHandle),
    (∃ s', (render root handle).run s = .ok () s')
      ↔ s.isRendered = false ∧ (∀ x ∈ root.ids, x.isAssigned = true) ∧ root.ids.Nodup
  render_tree : ∀ {P : Type} (root : Node P) (handle : SurfaceHandle) {s' : Surface},
    (render root handle).run s = .ok () s' → s'.tree = .ok root.erased

theorem IsEmpty.edits (hs : s.IsEmpty) : s.Edits := by
  have htree : ∀ t, s.tree ≠ .ok t := by
    intro t
    rw [tree, hs.1]
    simp
  have hnot : s.isRendered = false := by rw [isRendered, hs.1, Option.isSome_none]
  have hrender := fun {P : Type} (root : Node P) => render_decides hs.1 hs.2 root
  refine ⟨fun p => ?_, fun p s' t ht => absurd ht (htree t), fun root handle => ?_, ?_⟩
  · constructor
    · exact fun hok => absurd hok (apply_of_isEmpty hs p).not_ok
    · rintro ⟨t, ht, -⟩
      exact absurd ht (htree t)
  · rw [(hrender root handle).ok_iff]
    exact (and_iff_right hnot).symm
  · exact fun root handle s' hrun => (hrender root handle).tree_eq hrun

theorem Shows.edits (hs : s.Shows t) : s.Edits := by
  have hrendered : s.isRendered = true := by rw [isRendered, hs.root, Option.isSome_some]
  refine ⟨fun p => ?_, fun p s' u hu hrun => ?_, fun root handle => ?_, fun root handle s' hrun => ?_⟩
  · rw [(apply_decides hs p).ok_iff, hs.tree_eq]
    simp
  · rw [hs.tree_eq, Except.ok.injEq] at hu
    exact hu ▸ (apply_decides hs p).tree_eq hrun
  · constructor
    · exact fun hok => absurd hok (render_refuses hs root handle).not_ok
    · rintro ⟨hnot, -⟩
      exact absurd (hrendered.symm.trans hnot) (by simp)
  · exact absurd ⟨s', hrun⟩ (render_refuses hs root handle).not_ok

theorem Reachable.edits (h : s.Reachable) : s.Edits := by
  rcases h.empty_or_shows with he | ⟨t, ht⟩
  · exact he.edits
  · exact ht.edits

/-- After any operations, whether they were accepted or not, a patch is taken iff it fits the tree
that the surface gives back, and the edited tree is given back then. -/
theorem edits_foldl_after (start : Url) (ops : List SurfaceOp) :
    (ops.foldl Surface.after (Surface.fresh start)).Edits :=
  ((Reachable.fresh start).foldl ops).edits

/-- What comes in may bring back identities of what it replaces, and no other live ones. -/
example :
    let page : Node Nat := .element (.keyed "page") "div" []
      [.element (.keyed "a") "p" [] [.text (.generated 1) "x"], .text (.generated 2) "y"]
    let replace (text : NodeId) : Patch Nat := .replaceChild (some (.keyed "page"))
      (.element (.keyed "a") "p" [] []) (.element (.keyed "b") "p" [] [.text text "z"])
    (replace (.generated 1)).Fits page ∧ ¬(replace (.generated 2)).Fits page := by
  intro page replace
  decide

/-! ### Refusals -/

/-- An operation, less the address that going to one gives back. -/
def perform : SurfaceOp → Edit Unit
  | .render _ root handle => render root handle
  | .apply _ p => apply p
  | .applyHead p => applyHead p
  | .setTitle title => modify fun s => s.setTitle title
  | .pushUrl url => discard (pushUrl url)
  | .replaceUrl url => discard (replaceUrl url)
  | .loadUrl url => discard (loadUrl url)
  | .bump start stop => bump start stop

theorem run_discard {α : Type} (op : Edit α) (s : Surface) :
    (discard op).run s = match op.run s with
      | .ok _ s' => .ok () s'
      | .error e s' => .error e s' := by
  show (op >>= fun _ => pure ()).run s = _
  rw [EStateM.run_bind]
  cases op.run s <;> rfl

theorem finalState_discard {α : Type} (op : Edit α) (s : Surface) :
    finalState ((discard op).run s) = finalState (op.run s) := by
  rw [run_discard]
  cases op.run s <;> rfl

theorem finalState_perform (op : SurfaceOp) (s : Surface) :
    finalState ((perform op).run s) = s.after op := by
  cases op with
  | pushUrl url => exact finalState_discard (pushUrl url) s
  | replaceUrl url => exact finalState_discard (replaceUrl url) s
  | loadUrl url => exact finalState_discard (loadUrl url) s
  | _ => rfl

/-- If the operation fails, it has changed nothing. -/
def Atomic {α : Type} (s : Surface) (op : Edit α) : Prop :=
  ∀ e s', op.run s = .error e s' → s' = s

theorem Refuses.atomic {op : Edit Unit} (h : s.Refuses op) : s.Atomic op := by
  obtain ⟨e, he⟩ := h
  intro e' s' hrun
  rw [he] at hrun
  exact (EStateM.Result.error.inj hrun).2.symm

theorem Accepts.atomic {op : Edit Unit} (h : s.Accepts op t) : s.Atomic op := by
  obtain ⟨s₁, hok⟩ := h.exists_ok
  intro e s' hrun
  rw [hok] at hrun
  exact nomatch hrun

theorem Decides.atomic {op : Edit Unit} {fits : Prop} (h : s.Decides op fits t) :
    s.Atomic op := by
  by_cases hf : fits
  · exact (h.accepts hf).atomic
  · exact (h.refuses hf).atomic

theorem atomic_applyHead (s : Surface) (p : HeadPatch) : s.Atomic (applyHead p) := by
  intro e s' hrun
  rw [applyHead, run_get_bind] at hrun
  dsimp only at hrun
  split at hrun <;> cases hrun <;> rfl

/-- Going to an address fails only where the address is read, before anything else. -/
theorem atomic_goTo (s : Surface) (url : String) (f : Url → Surface → Surface) :
    s.Atomic (discard do
      let next ← require ((← get).resolve url)
      modify (f next)
      return next) := by
  intro e s' hrun
  rw [run_discard, run_get_bind] at hrun
  cases hnext : s.resolve url with
  | ok next =>
    rw [hnext] at hrun
    exact nomatch hrun
  | error cause =>
    rw [hnext] at hrun
    cases hrun
    rfl

theorem atomic_bump (s : Surface) (start stop : Version) : s.Atomic (bump start stop) := by
  intro e s' hrun
  rw [bump, run_get_bind] at hrun
  dsimp only at hrun
  split at hrun
  · cases hrun
    rfl
  · split at hrun <;> cases hrun
    rfl

/-- On an empty surface or one that shows a tree, no operation fails halfway. -/
theorem atomic_perform (h : s.IsEmpty ∨ ∃ t, s.Shows t) (op : SurfaceOp) :
    s.Atomic (perform op) := by
  cases op with
  | render P root handle =>
    rcases h with he | ⟨t, ht⟩
    · exact (render_decides he.1 he.2 root handle).atomic
    · exact (render_refuses ht root handle).atomic
  | apply P p =>
    rcases h with he | ⟨t, ht⟩
    · exact (apply_of_isEmpty he p).atomic
    · exact (apply_decides ht p).atomic
  | applyHead p => exact atomic_applyHead s p
  | setTitle title => exact fun e s' hrun => nomatch hrun
  | pushUrl url => exact atomic_goTo s url _
  | replaceUrl url => exact atomic_goTo s url _
  | loadUrl url => exact atomic_goTo s url _
  | bump start stop => exact atomic_bump s start stop

/-- An operation that is refused, after any others, changes nothing of the surface, so that the
others might go on as if it had not been tried. -/
theorem unchanged_of_error {start : Url} {ops : List SurfaceOp} {op : SurfaceOp}
    {e : SurfaceError} {s' : Surface}
    (h : (perform op).run (ops.foldl Surface.after (Surface.fresh start)) = .error e s') :
    s' = ops.foldl Surface.after (Surface.fresh start)
      ∧ (ops ++ [op]).foldl Surface.after (Surface.fresh start)
        = ops.foldl Surface.after (Surface.fresh start) := by
  have hsame := atomic_perform ((Reachable.fresh start).foldl ops).empty_or_shows op e s' h
  have hafter := finalState_perform op (ops.foldl Surface.after (Surface.fresh start))
  rw [h] at hafter
  rw [List.foldl_append, List.foldl_cons, List.foldl_nil, ← hafter]
  exact ⟨hsame, hsame⟩

/-- A tree that brings back an identity of the one that it replaces, and one of another tree. -/
theorem unchanged_of_replaceChild :
    let page : Node Nat := .element (.keyed "page") "div" []
      [.element (.keyed "a") "p" [] [.text (.generated 1) "x"], .text (.generated 2) "y"]
    let new : Node Nat := .element (.keyed "b") "p" [] [.text (.generated 1) "x", .text (.generated 2) "z"]
    let s := [SurfaceOp.render Nat page, .setTitle "page"].foldl Surface.after
      (Surface.fresh { scheme := "app", path := .segments [] })
    let op := SurfaceOp.apply Nat (.replaceChild (some (.keyed "page")) (.text (.keyed "a") "") new)
    ∃ s', (perform op).run s = .error (.duplicateKey (.generated 2)) s' ∧ s' = s
      ∧ s.after op = s := by
  intro page new s op
  have h : (perform op).run s = .error (.duplicateKey (.generated 2)) s := by rfl
  obtain ⟨hsame, hafter⟩ := unchanged_of_error h
  exact ⟨s, h, hsame, hafter⟩

end Surface

end ViewLoop
