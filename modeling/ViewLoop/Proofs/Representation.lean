import Mathlib.Logic.Relation
import ViewLoop.Proofs.HeadChanges
import ViewLoop.Proofs.Reachable

/-!
# The records of a reachable surface

Whatever operations a surface has seen, accepted or refused, its records are those of one tree: the
links between parents and children agree, nothing but the root is without a parent, and no walk
along the links goes round (`Surface.Consistent`). A surface that shows a tree has such records
(`Surface.Shows.linked`), and no operation loses the last place or repeats a key of the head
(`Surface.consistent_foldl_after`).
-/

namespace ViewLoop

/-! ### The entries of a tree -/

namespace Node

variable {P : Type}

/-- The entries of a tree are those of its root and of the children of its nodes. -/
theorem mem_entries_iff {q : Option NodeId} {n : Node P} {e : NodeId × NodeRecord} :
    e ∈ n.entries q ↔ e = (n.id, n.record q)
      ∨ ∃ p ∈ n.subtrees, ∃ c ∈ p.children, e = (c.id, c.record (some p.id)) := by
  induction n generalizing q with
  | text i s => simp [entries, children, id]
  | element i tag as cs ih =>
    rw [entries_eq, List.mem_cons, List.mem_flatMap]
    refine or_congr_right ⟨?_, ?_⟩
    · rintro ⟨c, hc, he⟩
      rcases (ih c hc).mp he with rfl | ⟨p, hp, d, hd, rfl⟩
      · exact ⟨_, self_mem_subtrees _, c, hc, rfl⟩
      · exact ⟨p, mem_subtrees_of_mem hc hp, d, hd, rfl⟩
    · rintro ⟨p, hp, d, hd, rfl⟩
      rw [subtrees_element, List.mem_cons] at hp
      rcases hp with rfl | hp
      · exact ⟨d, hd, (ih d hd).mpr (Or.inl rfl)⟩
      · obtain ⟨c, hc, hpc⟩ := List.mem_flatMap.mp hp
        exact ⟨c, hc, (ih c hc).mpr (Or.inr ⟨p, hpc, d, hd, rfl⟩)⟩

theorem exists_of_mem_entries {q : Option NodeId} {n : Node P} {x : NodeId} {r : NodeRecord}
    (h : (x, r) ∈ n.entries q) : ∃ m ∈ n.subtrees, ∃ q', m.id = x ∧ m.record q' = r := by
  rcases mem_entries_iff.mp h with he | ⟨p, hp, c, hc, he⟩
  · obtain ⟨rfl, rfl⟩ := Prod.mk.inj he
    exact ⟨n, n.self_mem_subtrees, q, rfl, rfl⟩
  · obtain ⟨rfl, rfl⟩ := Prod.mk.inj he
    exact ⟨c, mem_subtrees_of_mem_children hp hc, _, rfl, rfl⟩

theorem isText_eq_false_of_mem_children {n c : Node P} (h : c ∈ n.children) : n.isText = false := by
  cases n with
  | element i tag as cs => rfl
  | text i s => exact absurd h List.not_mem_nil

theorem size_lt_of_mem_children {n c : Node P} (h : c ∈ n.children) : c.size < n.size := by
  cases n with
  | element i tag as cs => exact size_lt_of_mem i tag as h
  | text i s => exact absurd h List.not_mem_nil

end Node

/-! ### Links -/

namespace Arena

def IsChild (a : Arena) (child parent : NodeId) : Prop :=
  ∃ r, a.get? parent = some r ∧ child ∈ r.children

/-- The records are those of one tree below `root`, or there are none. -/
structure Linked (a : Arena) (root : Option NodeId) : Prop where
  distinct : a.Distinct
  empty_iff : a.nodes = [] ↔ root = none
  root_live : ∀ x ∈ root, ∃ r, a.get? x = some r ∧ r.parent = none
  root_unique : ∀ x r, a.get? x = some r → r.parent = none → root = some x
  /-- The parent of a node is a live element that has it among its children once. -/
  parent_live : ∀ x r p, a.get? x = some r → r.parent = some p →
    ∃ q, a.get? p = some q ∧ q.content.isText = false ∧ q.children.count x = 1
  /-- A child is live and has its parent as its parent. -/
  child_live : ∀ x r c, a.get? x = some r → c ∈ r.children →
    ∃ q, a.get? c = some q ∧ q.parent = some x
  texts : ∀ x r, a.get? x = some r → r.content.isText = true → r.children = []
  assigned : ∀ x r, a.get? x = some r → x.isAssigned = true
  connected : ∀ x, a.contains x = true →
    ∃ y ∈ root, Relation.ReflTransGen (fun parent child => a.IsChild child parent) y x
  acyclic : WellFounded a.IsChild
  /-- A walk below a live node comes to its end before its bound, and reads one tree, whose nodes are
  those that are removed with it. -/
  readings : ∀ x, a.contains x = true → ∃ n : Node Unit, n.id = x ∧ a.tree? x = some n
    ∧ a.subtreeIds x = n.ids
    ∧ (∀ depth, a.size ≤ depth → a.treeWithin depth x = some n ∧ a.idsWithin depth x = n.ids)
    ∧ ∃ rest, a.removeTree x = .ok rest
      ∧ ∀ y, rest.contains y = true ↔ a.contains y = true ∧ y ∉ n.ids

theorem linked_of_isEmpty {a : Arena} (h : a.nodes = []) : a.Linked none := by
  have hget : ∀ x, a.get? x = none := by
    intro x
    rw [get?, h]
    rfl
  have hno : ∀ {x : NodeId} {r : NodeRecord} {Q : Prop}, a.get? x = some r → Q := by
    intro x r Q hx
    rw [hget] at hx
    cases hx
  have hlive : ∀ {x : NodeId} {Q : Prop}, a.contains x = true → Q := by
    intro x Q hx
    rw [contains, hget] at hx
    cases hx
  refine ⟨?_, ⟨fun _ => rfl, fun _ => h⟩, fun x hx => absurd hx (Option.not_mem_none x), fun x r hx => hno hx,
    fun x r p hx => hno hx, fun x r c hx => hno hx, fun x r hx => hno hx, fun x r hx => hno hx,
    fun x hx => hlive hx, ⟨fun x => ⟨x, ?_⟩⟩, fun x hx => hlive hx⟩
  · rw [Distinct, h]
    exact List.nodup_nil
  · rintro y ⟨r, hr, -⟩
    exact hno hr

theorem keys_unlink (a : Arena) (x : NodeId) :
    (a.unlink x).nodes.map Prod.fst = a.nodes.map Prod.fst := by
  unfold unlink
  split
  · rfl
  · exact keys_modify _ _

theorem contains_removeTree {a rest : Arena} {x : NodeId} (h : a.removeTree x = .ok rest)
    (y : NodeId) : rest.contains y = true ↔ a.contains y = true ∧ y ∉ a.subtreeIds x := by
  unfold removeTree at h
  split at h
  · exact nomatch h
  · rw [Except.ok.injEq] at h
    subst h
    rw [contains_iff, contains_iff, ← keys_unlink a x, List.mem_map, List.mem_map]
    constructor
    · rintro ⟨p, hp, rfl⟩
      obtain ⟨hp, hgone⟩ := List.mem_filter.mp hp
      exact ⟨⟨p, hp, rfl⟩, by simpa using hgone⟩
    · rintro ⟨⟨p, hp, rfl⟩, hgone⟩
      exact ⟨p, List.mem_filter.mpr ⟨hp, by simpa using hgone⟩, rfl⟩

end Arena

/-! ### Links of a surface that shows a tree -/

namespace Surface

variable {s s' : Surface} {t n : Node Unit}

namespace Shows

theorem mem_entries_of_get? (hs : s.Shows t) {x : NodeId} {r : NodeRecord}
    (h : s.arena.get? x = some r) : (x, r) ∈ t.entries none :=
  hs.nodes.mem_iff.mp (Arena.mem_of_get? h)

theorem get?_of_mem_entries (hs : s.Shows t) {x : NodeId} {r : NodeRecord}
    (h : (x, r) ∈ t.entries none) : s.arena.get? x = some r :=
  Arena.get?_of_mem hs.distinct (hs.nodes.mem_iff.mpr h)

theorem exists_node (hs : s.Shows t) {x : NodeId} (hx : s.arena.contains x = true) :
    ∃ n ∈ t.subtrees, n.id = x := by
  rw [Arena.contains_iff, hs.mem_keys_iff] at hx
  exact Node.mem_ids_iff.mp hx

theorem isChild_iff (hs : s.Shows t) {x y : NodeId} :
    s.arena.IsChild y x ↔ ∃ n ∈ t.subtrees, ∃ c ∈ n.children, n.id = x ∧ c.id = y := by
  constructor
  · rintro ⟨r, hr, hy⟩
    obtain ⟨n, hn, q, rfl, rfl⟩ := Node.exists_of_mem_entries (hs.mem_entries_of_get? hr)
    obtain ⟨c, hc, rfl⟩ := List.mem_map.mp hy
    exact ⟨n, hn, c, hc, rfl, rfl⟩
  · rintro ⟨n, hn, c, hc, rfl, rfl⟩
    obtain ⟨q, hq⟩ := Arena.get?_of_mem_subtrees hs.distinct hs.entries_subset hn
    exact ⟨_, hq, List.mem_map_of_mem hc⟩

theorem reachable_below (hs : s.Shows t) (hn : n ∈ t.subtrees) {m : Node Unit}
    (hm : m ∈ n.subtrees) :
    Relation.ReflTransGen (fun parent child => s.arena.IsChild child parent) n.id m.id := by
  induction n with
  | text i u =>
    obtain rfl := List.mem_singleton.mp hm
    exact .refl
  | element i tag as cs ih =>
    rw [Node.subtrees_element, List.mem_cons] at hm
    rcases hm with rfl | hm
    · exact .refl
    · obtain ⟨c, hc, hmc⟩ := List.mem_flatMap.mp hm
      have hlink : s.arena.IsChild c.id i := hs.isChild_iff.mpr ⟨_, hn, c, hc, rfl, rfl⟩
      exact .head hlink (ih c hc (Node.mem_subtrees_of_mem_children hn hc) hmc)

theorem tree?_eq (hs : s.Shows t) (hn : n ∈ t.subtrees) : s.arena.tree? n.id = some n := by
  obtain ⟨q, hq⟩ := Node.entries_subset_of_mem (q := none) hn
  have hsub : n.entries q ⊆ s.arena.nodes := fun _ he => hs.entries_subset (hq he)
  exact Arena.tree?_eq hs.distinct hsub (Node.nodup_ids_of_mem hs.nodup hn)

theorem acyclic (hs : s.Shows t) : WellFounded s.arena.IsChild := by
  -- each link leads to a smaller tree, so no walk goes round
  let rank : NodeId → Nat := fun x => ((s.arena.tree? x).map Node.size).getD 0
  refine Subrelation.wf (r := InvImage (· < ·) rank) ?_ (InvImage.wf rank Nat.lt_wfRel.wf)
  intro y x h
  obtain ⟨n, hn, c, hc, rfl, rfl⟩ := hs.isChild_iff.mp h
  have hcn := Node.mem_subtrees_of_mem_children hn hc
  simp only [InvImage, rank, hs.tree?_eq hn, hs.tree?_eq hcn, Option.map_some, Option.getD_some]
  exact Node.size_lt_of_mem_children hc

theorem readings (hs : s.Shows t) (hn : n ∈ t.subtrees) :
    s.arena.subtreeIds n.id = n.ids
      ∧ ∀ depth, s.arena.size ≤ depth →
        s.arena.treeWithin depth n.id = some n ∧ s.arena.idsWithin depth n.id = n.ids := by
  obtain ⟨q, hq⟩ := Node.entries_subset_of_mem (q := none) hn
  have hsub : n.entries q ⊆ s.arena.nodes := fun _ he => hs.entries_subset (hq he)
  have hsize := Arena.size_le_of_entries_subset hsub (Node.nodup_ids_of_mem hs.nodup hn)
  refine ⟨hs.subtreeIds_eq hn, fun depth hd => ?_⟩
  have hdepth := Nat.le_trans hsize hd
  exact ⟨Arena.treeWithin_eq hs.distinct hsub hdepth, Arena.idsWithin_eq hs.distinct hsub hdepth⟩

theorem removal (hs : s.Shows t) (hn : n ∈ t.subtrees) :
    ∃ rest, s.arena.removeTree n.id = .ok rest
      ∧ ∀ y, rest.contains y = true ↔ s.arena.contains y = true ∧ y ∉ n.ids := by
  obtain ⟨q, hq⟩ := hs.record_eq hn
  cases hrest : s.arena.removeTree n.id with
  | error e =>
    rw [Arena.removeTree, hq] at hrest
    cases hrest
  | ok rest =>
    refine ⟨rest, rfl, fun y => ?_⟩
    rw [Arena.contains_removeTree hrest, hs.subtreeIds_eq hn]

theorem linked (hs : s.Shows t) : s.arena.Linked s.root := by
  have hroot := hs.get?_of_mem_entries (Node.mem_entries_iff.mpr (Or.inl rfl))
  refine ⟨hs.distinct, ?_, ?_, ?_, ?_, ?_, ?_, ?_, ?_, hs.acyclic, ?_⟩
  · constructor
    · intro h
      rw [Arena.get?, h] at hroot
      cases hroot
    · intro h
      rw [hs.root] at h
      cases h
  · intro x hx
    rw [hs.root] at hx
    obtain rfl := Option.some.inj hx
    exact ⟨_, hroot, rfl⟩
  · intro x r hx hparent
    rcases Node.mem_entries_iff.mp (hs.mem_entries_of_get? hx) with he | ⟨p, -, c, -, he⟩
    · obtain ⟨rfl, -⟩ := Prod.mk.inj he
      exact hs.root
    · obtain ⟨-, rfl⟩ := Prod.mk.inj he
      cases hparent
  · intro x r p hx hparent
    rcases Node.mem_entries_iff.mp (hs.mem_entries_of_get? hx) with he | ⟨m, hm, c, hc, he⟩
    · obtain ⟨-, rfl⟩ := Prod.mk.inj he
      cases hparent
    · obtain ⟨rfl, rfl⟩ := Prod.mk.inj he
      obtain rfl : m.id = p := Option.some.inj hparent
      obtain ⟨q, hq⟩ := Arena.get?_of_mem_subtrees hs.distinct hs.entries_subset hm
      refine ⟨_, hq, ?_, ?_⟩
      · exact (isText_content m).trans (Node.isText_eq_false_of_mem_children hc)
      · exact List.count_eq_one_of_mem (hs.nodup_children hm) (List.mem_map_of_mem hc)
  · intro x r c hx hc
    obtain ⟨m, hm, q, rfl, rfl⟩ := Node.exists_of_mem_entries (hs.mem_entries_of_get? hx)
    obtain ⟨d, hd, rfl⟩ := List.mem_map.mp hc
    exact ⟨d.record (some m.id), hs.get?_of_mem_entries
      (Node.mem_entries_iff.mpr (Or.inr ⟨m, hm, d, hd, rfl⟩)), rfl⟩
  · intro x r hx htext
    obtain ⟨m, -, q, rfl, rfl⟩ := Node.exists_of_mem_entries (hs.mem_entries_of_get? hx)
    cases m with
    | element i tag as cs => cases htext
    | text i u => rfl
  · intro x r hx
    obtain ⟨m, hm, q, rfl, -⟩ := Node.exists_of_mem_entries (hs.mem_entries_of_get? hx)
    exact hs.assigned_of_mem hm
  · intro x hx
    obtain ⟨m, hm, rfl⟩ := hs.exists_node hx
    exact ⟨t.id, hs.root, hs.reachable_below t.self_mem_subtrees hm⟩
  · intro x hx
    obtain ⟨m, hm, rfl⟩ := hs.exists_node hx
    obtain ⟨hids, hdepth⟩ := hs.readings hm
    exact ⟨m, rfl, hs.tree?_eq hm, hids, hdepth, hs.removal hm⟩

theorem nodeCount_eq (hs : s.Shows t) : s.nodeCount = t.size := by
  rw [nodeCount, Arena.size, hs.nodes.length_eq, ← List.length_map (f := Prod.fst),
    Node.keys_entries, Node.size_eq_length_ids]

end Shows

/-! ### The document -/

/-- The last entry of the history is the present place, and no key of the head occurs twice. -/
structure Settled (s : Surface) : Prop where
  history : s.history.getLast? = some s.current
  head : (s.head.map HeadEntry.key).Nodup

theorem Settled.of_nodes (h : s.Settled) {a : Arena} {r : Option NodeId}
    {handle : Option SurfaceHandle} :
    Settled { s with arena := a, root := r, handle } := ⟨h.history, h.head⟩

theorem Accepts.settled {op : Edit Unit} (h : s.Settled) (hop : s.Accepts op t) :
    (ViewLoop.finalState (op.run s)).Settled := by
  obtain ⟨a, r, handle, hrun, -⟩ := hop
  rw [hrun]
  exact h.of_nodes

theorem Refuses.settled {op : Edit Unit} (h : s.Settled) (hop : s.Refuses op) :
    (ViewLoop.finalState (op.run s)).Settled := by
  rw [hop.finalState]
  exact h

theorem Decides.settled {op : Edit Unit} {fits : Prop} (h : s.Settled)
    (hop : s.Decides op fits t) : (ViewLoop.finalState (op.run s)).Settled := by
  by_cases hf : fits
  · exact (hop.accepts hf).settled h
  · exact (hop.refuses hf).settled h

theorem settled_applyHead (h : s.Settled) (p : HeadPatch) :
    (finalState ((applyHead p).run s)).Settled := by
  by_cases hp : p.Fits s.head
  · rw [run_applyHead h.head hp]
    exact ⟨h.history, HeadPatch.nodup_edit h.head hp⟩
  · rw [applyHead, run_get_bind]
    cases p with
    | add e =>
      obtain ⟨i, hi⟩ := HeadEntry.exists_findIdx? (Decidable.not_not.mp hp)
      simp only [HeadPatch.entry, hi]
      exact h
    | update e =>
      simp only [HeadPatch.entry, HeadEntry.findIdx?_eq_none hp]
      exact h
    | remove e =>
      simp only [HeadPatch.entry, HeadEntry.findIdx?_eq_none hp]
      exact h

theorem settled_resolve (h : s.Settled) (url : String) {f : Url → Edit Url}
    (hf : ∀ next, (finalState ((f next).run s)).Settled) :
    (finalState ((do f (← require ((← get).resolve url)) : Edit Url).run s)).Settled := by
  rw [run_get_bind]
  cases s.resolve url with
  | ok next => exact hf next
  | error e => exact h

theorem settled_bump (h : s.Settled) (start stop : Version) :
    (finalState ((bump start stop).run s)).Settled := by
  rw [bump, run_get_bind]
  dsimp only
  split
  · exact h
  · split
    · exact h
    · exact ⟨h.history, h.head⟩

theorem settled_after (hnodes : s.IsEmpty ∨ ∃ t, s.Shows t) (h : s.Settled) (op : SurfaceOp) :
    (s.after op).Settled := by
  cases op with
  | render P root handle =>
    rcases hnodes with he | ⟨t, ht⟩
    · exact (render_decides he.1 he.2 root handle).settled h
    · exact (render_refuses ht root handle).settled h
  | apply P p =>
    rcases hnodes with he | ⟨t, ht⟩
    · exact (apply_of_isEmpty he p).settled h
    · exact (apply_decides ht p).settled h
  | applyHead p => exact settled_applyHead h p
  | setTitle title => exact ⟨h.history, h.head⟩
  | pushUrl url =>
    exact settled_resolve h url fun next => ⟨List.getLast?_concat, h.head⟩
  | replaceUrl url =>
    exact settled_resolve h url fun next => ⟨List.getLast?_concat, h.head⟩
  | loadUrl url =>
    exact settled_resolve h url fun next => ⟨List.getLast?_concat, h.head⟩
  | bump start stop => exact settled_bump h start stop

/-! ### Consistent surfaces -/

/-- The records of the surface are those of a tree, which it gives back as a tree and as markup. -/
structure Consistent (s : Surface) : Prop where
  linked : s.arena.Linked s.root
  settled : s.Settled
  rendered : s.isRendered = true →
    ∃ t, s.tree = .ok t ∧ s.html = .ok (Markup.ofNode t) ∧ s.nodeCount = t.size

theorem Reachable.settled (h : s.Reachable) : s.Settled := by
  induction h with
  | fresh start => exact ⟨rfl, List.nodup_nil⟩
  | after hs op ih => exact settled_after hs.empty_or_shows ih op

theorem Reachable.consistent (h : s.Reachable) : s.Consistent := by
  rcases h.empty_or_shows with he | ⟨t, ht⟩
  · refine ⟨?_, h.settled, fun hr => ?_⟩
    · rw [he.1]
      exact Arena.linked_of_isEmpty he.2
    · rw [isRendered, he.1] at hr
      exact nomatch hr
  · refine ⟨ht.linked, h.settled, fun _ => ⟨t, ht.tree_eq, ?_, ht.nodeCount_eq⟩⟩
    rw [html, ht.tree_eq]
    rfl

theorem Reachable.foldl (h : s.Reachable) (ops : List SurfaceOp) :
    (ops.foldl Surface.after s).Reachable := by
  induction ops generalizing s with
  | nil => exact h
  | cons op ops ih => exact ih (h.after op)

/-- A surface is consistent after any operations, whether they were accepted or not. -/
theorem consistent_foldl_after (start : Url) (ops : List SurfaceOp) :
    (ops.foldl Surface.after (Surface.fresh start)).Consistent :=
  ((Reachable.fresh start).foldl ops).consistent

end Surface

end ViewLoop
