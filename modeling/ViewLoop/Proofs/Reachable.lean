import ViewLoop.Proofs.SurfaceEdit

/-!
# Reachable surfaces

The surfaces that come about from a fresh one by operations of any kind, accepted or refused, in
any order. Each of them is empty or shows a tree (`Surface.Reachable.empty_or_shows`).
-/

namespace ViewLoop

/-- The state in which an action ends, with a result or with an error. -/
def finalState {ε σ α : Type} : EStateM.Result ε σ α → σ
  | .ok _ s => s
  | .error _ s => s

inductive SurfaceOp where
  | render (P : Type) (root : Node P) (handle : SurfaceHandle := .first)
  | apply (P : Type) (p : Patch P)
  | applyHead (p : HeadPatch)
  | setTitle (title : String)
  | pushUrl (url : String)
  | replaceUrl (url : String)
  | loadUrl (url : String)
  | bump (start stop : Version)

namespace Surface

/-- The surface after an operation, whether it was accepted or not. -/
def after (s : Surface) : SurfaceOp → Surface
  | .render _ root handle => finalState ((render root handle).run s)
  | .apply _ p => finalState ((apply p).run s)
  | .applyHead p => finalState ((applyHead p).run s)
  | .setTitle title => s.setTitle title
  | .pushUrl url => finalState ((pushUrl url).run s)
  | .replaceUrl url => finalState ((replaceUrl url).run s)
  | .loadUrl url => finalState ((loadUrl url).run s)
  | .bump start stop => finalState ((bump start stop).run s)

/-- The surfaces that operations can lead to. -/
inductive Reachable : Surface → Prop
  | fresh (start : Url) : Reachable (Surface.fresh start)
  | after {s : Surface} (h : Reachable s) (op : SurfaceOp) : Reachable (s.after op)

variable {s s' : Surface} {t : Node Unit}

/-! ### Operations that leave the live nodes alone -/

def SameNodes (s s' : Surface) : Prop := s'.arena = s.arena ∧ s'.root = s.root

theorem Shows.of_sameNodes (hs : s.Shows t) (h : SameNodes s s') : s'.Shows t :=
  ⟨h.2.trans hs.root, h.1 ▸ hs.nodes, hs.nodup, hs.assigned⟩

theorem sameNodes_applyHead (s : Surface) (p : HeadPatch) :
    SameNodes s (finalState ((applyHead p).run s)) := by
  rw [applyHead, run_get_bind]
  dsimp only
  split <;> exact ⟨rfl, rfl⟩

theorem sameNodes_resolve (s : Surface) (url : String) {f : Url → Edit Url}
    (hf : ∀ next, SameNodes s (finalState ((f next).run s))) :
    SameNodes s (finalState ((do f (← require ((← get).resolve url)) : Edit Url).run s)) := by
  rw [run_get_bind]
  cases s.resolve url with
  | ok next => exact hf next
  | error e => exact ⟨rfl, rfl⟩

theorem sameNodes_bump (s : Surface) (start stop : Version) :
    SameNodes s (finalState ((bump start stop).run s)) := by
  rw [bump, run_get_bind]
  dsimp only
  split
  · exact ⟨rfl, rfl⟩
  · split <;> exact ⟨rfl, rfl⟩

/-! ### What reachable surfaces show -/

/-- Nothing was rendered. -/
def IsEmpty (s : Surface) : Prop := s.root = none ∧ s.arena.nodes = []

theorem Accepts.finalState {op : Edit Unit} (h : s.Accepts op t) :
    (finalState (op.run s)).Shows t := by
  obtain ⟨a, r, handle, hrun, hshows⟩ := h
  rw [hrun]
  exact hshows

theorem Refuses.finalState {op : Edit Unit} (h : s.Refuses op) :
    ViewLoop.finalState (op.run s) = s := by
  obtain ⟨e, he⟩ := h
  rw [he]
  rfl

/-! ### Empty surfaces -/

/-- An operation that starts by reading what cannot be read. -/
theorem refuses_of_reading {α : Type} {reading : Surface → Except SurfaceError α}
    {rest : α → Edit Unit} (h : ∃ e, reading s = .error e) :
    s.Refuses (do rest (← require (reading (← get)))) := by
  obtain ⟨e, he⟩ := h
  exact ⟨e, by rw [run_get_bind, he, run_require_error_bind]⟩

theorem IsEmpty.record (hs : s.IsEmpty) (x : NodeId) : ∃ e, s.arena.record x = .error e := by
  have hget : s.arena.get? x = none := by
    rw [Arena.get?, hs.2]
    rfl
  unfold Arena.record
  rw [hget]
  split
  · exact ⟨_, rfl⟩
  · exact ⟨_, rfl⟩

theorem IsEmpty.children (hs : s.IsEmpty) (x : NodeId) :
    ∃ e, s.arena.children x = .error e := by
  obtain ⟨e, he⟩ := hs.record x
  exact ⟨e, by rw [Arena.children, he]⟩

theorem IsEmpty.attributes (hs : s.IsEmpty) (x : NodeId) :
    ∃ e, s.arena.attributes x = .error e := by
  obtain ⟨e, he⟩ := hs.record x
  exact ⟨e, by rw [Arena.attributes, he]⟩

theorem IsEmpty.slot (hs : s.IsEmpty) (x : Option NodeId) (y : NodeId) :
    ∃ e, s.slot x y = .error e := by
  cases x with
  | none =>
    rw [Surface.slot, hs.1]
    exact ⟨_, if_neg (by simp)⟩
  | some x =>
    obtain ⟨e, he⟩ := hs.record x
    refine ⟨e, ?_⟩
    rw [Surface.slot, Arena.position, he]
    rfl

theorem apply_of_isEmpty {P : Type} (hs : s.IsEmpty) (p : Patch P) : s.Refuses (apply p) := by
  cases p with
  | addChild x i c =>
    rw [apply]
    split
    · exact ⟨_, run_throw⟩
    · exact refuses_of_reading (hs.children x)
  | addText x i c =>
    rw [apply]
    split
    · exact refuses_of_reading (hs.children x)
    · exact ⟨_, run_throw⟩
  | removeChild x c => exact refuses_of_reading (hs.record c.id)
  | removeText x y => exact refuses_of_reading (hs.record y)
  | replaceChild x old new => exact refuses_of_reading (hs.slot x old.id)
  | reorderChildren x order => exact refuses_of_reading (hs.children x)
  | updateAttribute x old new => exact refuses_of_reading (hs.attributes x)
  | addAttribute x a => exact refuses_of_reading (hs.attributes x)
  | removeAttribute x a => exact refuses_of_reading (hs.attributes x)
  | updateText x u => exact refuses_of_reading (hs.record x)

/-! ### What operations lead to -/

/-- One operation leads from an empty surface or one that shows a tree to such a surface. -/
theorem empty_or_shows_after (h : s.IsEmpty ∨ ∃ t, s.Shows t) (op : SurfaceOp) :
    (s.after op).IsEmpty ∨ ∃ t, (s.after op).Shows t := by
  have hsame : SameNodes s (s.after op) →
      (s.after op).IsEmpty ∨ ∃ t, (s.after op).Shows t := by
    intro hn
    refine h.imp (fun he => ⟨hn.2.trans he.1, hn.1 ▸ he.2⟩) ?_
    rintro ⟨t, ht⟩
    exact ⟨t, ht.of_sameNodes hn⟩
  cases op with
  | render P root handle =>
    rcases h with h | ⟨t, ht⟩
    · by_cases hfit : (∀ x ∈ root.ids, x.isAssigned = true) ∧ root.ids.Nodup
      · exact Or.inr ⟨_, ((render_decides h.1 h.2 root handle).accepts hfit).finalState⟩
      · have hr := ((render_decides h.1 h.2 root handle).refuses hfit).finalState
        exact Or.inl (by rw [after, hr]; exact h)
    · have hr := (render_refuses ht root handle).finalState
      exact Or.inr ⟨t, by rw [after, hr]; exact ht⟩
  | apply P p =>
    rcases h with h | ⟨t, ht⟩
    · have hr := (apply_of_isEmpty h p).finalState
      exact Or.inl (by rw [after, hr]; exact h)
    · by_cases hfit : p.Fits t
      · exact Or.inr ⟨_, ((apply_decides ht p).accepts hfit).finalState⟩
      · have hr := ((apply_decides ht p).refuses hfit).finalState
        exact Or.inr ⟨t, by rw [after, hr]; exact ht⟩
  | applyHead p => exact hsame (sameNodes_applyHead s p)
  | setTitle title => exact hsame ⟨rfl, rfl⟩
  | pushUrl url => exact hsame (sameNodes_resolve s url fun _ => ⟨rfl, rfl⟩)
  | replaceUrl url => exact hsame (sameNodes_resolve s url fun _ => ⟨rfl, rfl⟩)
  | loadUrl url => exact hsame (sameNodes_resolve s url fun _ => ⟨rfl, rfl⟩)
  | bump start stop => exact hsame (sameNodes_bump s start stop)

theorem Reachable.empty_or_shows (h : s.Reachable) : s.IsEmpty ∨ ∃ t, s.Shows t := by
  induction h with
  | fresh start => exact Or.inl ⟨rfl, rfl⟩
  | after _ op ih => exact empty_or_shows_after ih op

/-- The tree that a reachable surface gives back is the one it shows. -/
theorem Reachable.shows_of_tree (h : s.Reachable) (ht : s.tree = .ok t) : s.Shows t := by
  rcases h.empty_or_shows with he | ⟨t', ht'⟩
  · rw [tree, he.1] at ht
    exact absurd ht (by simp)
  · rw [ht'.tree_eq, Except.ok.injEq] at ht
    exact ht ▸ ht'

end Surface

end ViewLoop
