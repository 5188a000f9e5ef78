import ViewLoop.Proofs.Commands

/-!
# Commands as sequences of leaves

However commands are nested, they are carried out by their leaves, from left to right. One leaf
leads from one session to the next and adds its messages to the queue (`Session.Obeys`); the leaves
are carried out until one of them goes astray (`Session.Carries`). `Command.sequence` changes
nothing of that, and its results are in normal form (`Session.dispatch_by_leaves`).
-/

namespace ViewLoop

variable {Flags Model M D E X : Type}

/-! ### Normal forms -/

namespace Command

/-- Nothing to do, a single leaf, or a sequence of several leaves. -/
inductive IsNormal : Command E → Prop
  | none : IsNormal none
  | leaf {c : Command E} (isLeaf : c.IsLeaf) : IsNormal c
  | batch {cs : List (Command E)} (several : 2 ≤ cs.length) (areLeaves : ∀ c ∈ cs, c.IsLeaf) :
    IsNormal (batch cs)

theorem isNormal_sequence (cs : List (Command E)) : (sequence cs).IsNormal := by
  have hleaves : ∀ c ∈ forestLeaves cs, c.IsLeaf := fun c hc => isLeaf_of_mem_forestLeaves cs hc
  unfold sequence
  split
  · exact .none
  · rename_i c hone
    exact .leaf (hleaves c (by simp [hone]))
  · rename_i hnil hone
    refine .batch ?_ hleaves
    match h : forestLeaves cs with
    | [] => exact absurd h hnil
    | [c] => exact absurd h (hone c)
    | c :: d :: rest => simp

theorem forestLeaves_eq_self {cs : List (Command E)} (h : ∀ c ∈ cs, c.IsLeaf) :
    forestLeaves cs = cs := by
  induction cs with
  | nil => rfl
  | cons c cs ih =>
    have hrest := ih fun d hd => h d (List.mem_cons_of_mem _ hd)
    rw [forestLeaves, (h c List.mem_cons_self).leaves_eq, hrest]
    rfl

theorem leaves_sequence (cs : List (Command E)) : (sequence cs).leaves = forestLeaves cs := by
  have hleaves : ∀ c ∈ forestLeaves cs, c.IsLeaf := fun c hc => isLeaf_of_mem_forestLeaves cs hc
  unfold sequence
  split
  · rename_i hnil
    rw [hnil, leaves]
  · rename_i c hone
    have hleaf : c.IsLeaf := hleaves c (by simp [hone])
    rw [hone, hleaf.leaves_eq]
  · rw [leaves]
    exact forestLeaves_eq_self hleaves

theorem sequence_singleton_of_isNormal {c : Command E} (h : c.IsNormal) : sequence [c] = c := by
  have hforest : forestLeaves [c] = c.leaves := by rw [forestLeaves, forestLeaves, List.append_nil]
  unfold sequence
  rw [hforest]
  cases h with
  | none => rfl
  | leaf isLeaf => rw [isLeaf.leaves_eq]
  | batch several areLeaves =>
    rw [leaves, forestLeaves_eq_self areLeaves]
    split
    · simp at several
    · simp at several
    · rfl

end Command

namespace Session

/-! ### One leaf -/

/-- What the run of an effect adds to the queue: what was sent meanwhile, which a closed mailbox
does not take, and after it the report of a failure. -/
def reports (p : Program Flags Model M D E X) (b : Mailbox M) (r : Execution M X) : List M :=
  (if b.isOpen then r.sent else []) ++ (r.failure.map p.effectFailed).toList

/-- The session after an effect was run. -/
def executed (p : Program Flags Model M D E X) (s : Session Model M D X) (r : Execution M X) :
    Session Model M D X :=
  { s with
    executor := r.state
    mailbox := { settleExecution s.mailbox r with
      queue := s.mailbox.queue ++ reports p s.mailbox r }
    warnings := s.warnings ++ (r.failure.map Warning.effectFailed).toList }

/-- The leaf is carried out: it leads to the second session, and adds the messages to the queue. -/
inductive Obeys (p : Program Flags Model M D E X) (s : Session Model M D X) :
    Command E → List M → Session Model M D X → Prop
  | pushed {url : String} {next : Url} (resolved : s.scene.surface.current.join url = .ok next) :
    Obeys p s (.pushUrl url) [p.urlChanged next] { s with
      scene := { s.scene with surface := { s.scene.surface with
        history := s.scene.surface.history ++ [next], current := next } }
      mailbox := s.mailbox.post (p.urlChanged next) }
  | replaced {url : String} {next : Url} (resolved : s.scene.surface.current.join url = .ok next) :
    Obeys p s (.replaceUrl url) [p.urlChanged next] { s with
      scene := { s.scene with surface := { s.scene.surface with
        history := s.scene.surface.history.dropLast ++ [next], current := next } }
      mailbox := s.mailbox.post (p.urlChanged next) }
  | loaded {url : String} {next : Url} (resolved : s.scene.surface.current.join url = .ok next) :
    Obeys p s (.loadUrl url) [] { s with
      scene := { s.scene with surface := { s.scene.surface with
        loads := s.scene.surface.loads ++ [next]
        history := s.scene.surface.history ++ [next], current := next } } }
  | dropped {e : E} (execute : p.execute = none) :
    Obeys p s (.effect e) [] { s with warnings := s.warnings ++ [.effectDropped] }
  | executed {e : E} {execute : Executor E M X} (execute_eq : p.execute = some execute) :
    Obeys p s (.effect e) (reports p s.mailbox (execute e s.executor))
      (Session.executed p s (execute e s.executor))

theorem Obeys.queue {p : Program Flags Model M D E X} {s s' : Session Model M D X} {c : Command E}
    {added : List M} (h : Obeys p s c added s') :
    s'.mailbox.queue = s.mailbox.queue ++ added := by
  cases h with
  | pushed resolved => rfl
  | replaced resolved => rfl
  | loaded resolved => simp
  | dropped execute => simp
  | executed execute_eq => rfl

theorem run_perform_of_none {p : Program Flags Model M D E X} (h : p.execute = none) (e : E)
    (s : Session Model M D X) :
    (perform p e).run s = .ok () { s with warnings := s.warnings ++ [.effectDropped] } := by
  rw [perform, h]
  rfl

theorem run_perform_of_some {p : Program Flags Model M D E X} {execute : Executor E M X}
    (h : p.execute = some execute) (e : E) (s : Session Model M D X) :
    (perform p e).run s = .ok () (executed p s (execute e s.executor)) := by
  have hqueue := queue_settleExecution_eq s.mailbox (execute e s.executor)
  simp only [perform, h]
  rw [run_get_bind, run_bind_of_ok (run_modify _)]
  cases hfailure : (execute e s.executor).failure with
  | none =>
    have hreports : reports p s.mailbox (execute e s.executor)
        = if s.mailbox.isOpen then (execute e s.executor).sent else [] := by
      simp [reports, hfailure]
    rw [executed, hreports, ← hqueue, hfailure]
    simp only [Option.map_none, Option.toList_none, List.append_nil]
    rfl
  | some cause =>
    have hreports : s.mailbox.queue ++ reports p s.mailbox (execute e s.executor)
        = (settleExecution s.mailbox (execute e s.executor)).queue ++ [p.effectFailed cause] := by
      simp [reports, hfailure, hqueue]
    rw [executed, hreports, hfailure]
    rfl

/-- What carrying out a leaf comes to: it is obeyed, or it goes to an address that cannot be
resolved, and nothing happens. -/
def Ends (p : Program Flags Model M D E X) (s : Session Model M D X) (c : Command E)
    (r : EStateM.Result LoopError (Session Model M D X) Unit) : Prop :=
  (∃ added s', r = .ok () s' ∧ Obeys p s c added s')
    ∨ ∃ url cause, c ∈ [.pushUrl url, .replaceUrl url, .loadUrl url]
      ∧ s.scene.surface.current.join url = .error cause
      ∧ r = .error (.surface (.invalidUrl url cause)) s

theorem ends_navigate {p : Program Flags Model M D E X} {c : Command E} {url : String}
    (hc : c ∈ [.pushUrl url, .replaceUrl url, .loadUrl url]) (place : Url → Surface → Surface)
    (rest : Url → Action Model M D X Unit) (s : Session Model M D X)
    (hrest : ∀ next, s.scene.surface.current.join url = .ok next → ∃ added s',
      (rest next).run { s with scene := { s.scene with surface := place next s.scene.surface } }
        = .ok () s' ∧ Obeys p s c added s') :
    Ends p s c ((onSurface (do
      let next ← Surface.require ((← get).resolve url)
      modify (place next)
      return next) >>= rest).run s) := by
  have hgo := run_navigate (M := M) (D := D) url place s
  cases hjoin : s.scene.surface.current.join url with
  | ok next =>
    rw [hjoin] at hgo
    rw [run_bind_of_ok hgo]
    exact Or.inl (hrest next hjoin)
  | error cause =>
    rw [hjoin] at hgo
    exact Or.inr ⟨url, cause, hc, hjoin, run_bind_of_error hgo _⟩

theorem ends_dispatch_leaf (p : Program Flags Model M D E X) {c : Command E} (hc : c.IsLeaf)
    (s : Session Model M D X) : Ends p s c ((dispatch p c).run s) := by
  cases c with
  | none => exact hc.elim
  | batch commands => exact hc.elim
  | pushUrl url =>
    rw [dispatch]
    exact ends_navigate (by simp) (fun next f =>
      { f with history := f.history ++ [next], current := next })
      _ s fun next h => ⟨_, _, rfl, .pushed h⟩
  | replaceUrl url =>
    rw [dispatch]
    exact ends_navigate (by simp) (fun next f =>
      { f with history := f.history.dropLast ++ [next], current := next })
      _ s fun next h => ⟨_, _, rfl, .replaced h⟩
  | loadUrl url =>
    rw [dispatch]
    exact ends_navigate (by simp) (fun next f =>
      { f with loads := f.loads ++ [next], history := f.history ++ [next], current := next })
      _ s fun next h => ⟨_, _, rfl, .loaded h⟩
  | effect e =>
    rw [dispatch]
    cases hexecute : p.execute with
    | none => exact Or.inl ⟨_, _, run_perform_of_none hexecute e s, .dropped hexecute⟩
    | some execute => exact Or.inl ⟨_, _, run_perform_of_some hexecute e s, .executed hexecute⟩

/-! ### All leaves -/

/-- The leaves are carried out one after another. The messages are what they add to the queue, each
in its turn. One that goes to an address that cannot be resolved where the leaves before it have
come to changes nothing and ends the run. -/
inductive Carries (p : Program Flags Model M D E X) : Session Model M D X → List (Command E) →
    List M → EStateM.Result LoopError (Session Model M D X) Unit → Prop
  | done (s : Session Model M D X) : Carries p s [] [] (.ok () s)
  | next {s s₁ : Session Model M D X} {c : Command E} {cs : List (Command E)} {first rest : List M}
      {r : EStateM.Result LoopError (Session Model M D X) Unit} (obeys : Obeys p s c first s₁)
      (carries : Carries p s₁ cs rest r) : Carries p s (c :: cs) (first ++ rest) r
  | astray {s : Session Model M D X} {c : Command E} {url : String} {cause : Url.UrlError}
      (goes : c ∈ [.pushUrl url, .replaceUrl url, .loadUrl url])
      (unresolved : s.scene.surface.current.join url = .error cause) (cs : List (Command E)) :
    Carries p s (c :: cs) [] (.error (.surface (.invalidUrl url cause)) s)

theorem Carries.queue {p : Program Flags Model M D E X} {s : Session Model M D X}
    {cs : List (Command E)} {added : List M}
    {r : EStateM.Result LoopError (Session Model M D X) Unit} (h : Carries p s cs added r) :
    (finalState r).mailbox.queue = s.mailbox.queue ++ added := by
  induction h with
  | done s => exact (List.append_nil _).symm
  | next obeys carries ih => rw [ih, obeys.queue, List.append_assoc]
  | astray goes unresolved cs => exact (List.append_nil _).symm

theorem exists_carries (p : Program Flags Model M D E X) {cs : List (Command E)}
    (hcs : ∀ c ∈ cs, c.IsLeaf) (s : Session Model M D X) :
    ∃ added, Carries p s cs added ((cs.forM (dispatch p)).run s) := by
  induction cs generalizing s with
  | nil => exact ⟨[], .done s⟩
  | cons c cs ih =>
    rcases ends_dispatch_leaf p (hcs c List.mem_cons_self) s with
      ⟨first, s₁, hrun, hobeys⟩ | ⟨url, cause, hgoes, hjoin, hrun⟩
    · obtain ⟨rest, hrest⟩ := ih (fun d hd => hcs d (List.mem_cons_of_mem _ hd)) s₁
      rw [run_forM_cons_of_ok hrun]
      exact ⟨first ++ rest, .next hobeys hrest⟩
    · have hall : ((c :: cs).forM (dispatch p)).run s
          = .error (.surface (.invalidUrl url cause)) s := run_bind_of_error hrun _
      rw [hall]
      exact ⟨[], .astray hgoes hjoin cs⟩

theorem dispatch_sequence (p : Program Flags Model M D E X) (cs : List (Command E)) :
    (dispatch p (.sequence cs) : Action Model M D X Unit) = dispatchAll p cs := by
  rw [dispatch_eq_forM, Command.leaves_sequence, dispatchAll_eq_forM]

/-- A command is carried out by its leaves, however they are nested: one after another, up to the
first that goes astray, and each adds what is its own to the queue. Effects do not fail. A sequence
is in normal form, and is carried out as the commands that it was made of. -/
theorem dispatch_by_leaves (p : Program Flags Model M D E X) :
    (∀ c : Command E,
      (dispatch p c : Action Model M D X Unit) = c.leaves.forM (dispatch p)
      ∧ (dispatch p (.sequence [c]) : Action Model M D X Unit) = dispatch p c
      ∧ ∀ s : Session Model M D X, ∃ added, Carries p s c.leaves added ((dispatch p c).run s)
        ∧ (finalState ((dispatch p c).run s)).mailbox.queue = s.mailbox.queue ++ added)
    ∧ (∀ (e : E) (s : Session Model M D X), ∃ s', (dispatch p (.effect e)).run s = .ok () s')
    ∧ ∀ cs : List (Command E), (Command.sequence cs).IsNormal
      ∧ (Command.sequence cs).leaves = Command.forestLeaves cs
      ∧ Command.sequence [Command.sequence cs] = Command.sequence cs
      ∧ (dispatch p (.sequence cs) : Action Model M D X Unit) = dispatchAll p cs := by
  refine ⟨fun c => ⟨dispatch_eq_forM p c, ?_, fun s => ?_⟩, fun e s => ?_, fun cs => ?_⟩
  · rw [dispatch_sequence, dispatchAll, dispatchAll]
    exact bind_pure_unit
  · obtain ⟨added, hcarries⟩ :=
      exists_carries p (fun d hd => Command.isLeaf_of_mem_leaves c hd) s
    rw [← dispatch_eq_forM] at hcarries
    exact ⟨added, hcarries, hcarries.queue⟩
  · rw [dispatch]
    cases hexecute : p.execute with
    | none => exact ⟨_, run_perform_of_none hexecute e s⟩
    | some execute => exact ⟨_, run_perform_of_some hexecute e s⟩
  · have hnormal := Command.isNormal_sequence cs
    have hagain := Command.sequence_singleton_of_isNormal hnormal
    exact ⟨hnormal, Command.leaves_sequence cs, hagain, dispatch_sequence p cs⟩

end Session

end ViewLoop
