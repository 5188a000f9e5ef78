import ViewLoop.Proofs.Shown

/-!
# Changes of the head

A change of the head is a change of a list of entries with distinct keys (`HeadPatch.edit`). What
the head holds halfway through a difference is what has come, and of the old entries those whose
keys were not settled (`HeadEntry.Halfway`); at the end it holds the new entries, in some order
(`Surface.applyHead_diff`).
-/

namespace ViewLoop

namespace HeadPatch

/-- The change fits the entries: a new key is added, and a present one is updated or removed. -/
def Fits (head : List HeadEntry) : HeadPatch → Prop
  | add e => e.key ∉ head.map HeadEntry.key
  | update e => e.key ∈ head.map HeadEntry.key
  | remove e => e.key ∈ head.map HeadEntry.key

def edit (head : List HeadEntry) : HeadPatch → List HeadEntry
  | add e => head ++ [e]
  | update e => head.map fun d => if d.key = e.key then e else d
  | remove e => head.filter fun d => d.key ≠ e.key

variable {head : List HeadEntry} {p : HeadPatch}

theorem nodup_edit (hk : (head.map HeadEntry.key).Nodup) (hp : p.Fits head) :
    ((p.edit head).map HeadEntry.key).Nodup := by
  cases p with
  | add e =>
    rw [edit, List.map_append, List.map_singleton, List.nodup_append]
    refine ⟨hk, List.nodup_singleton _, fun k hk l hl hkl => hp ?_⟩
    rwa [hkl, List.mem_singleton.mp hl] at hk
  | update e =>
    rw [edit, List.map_map]
    have hkeys : head.map (HeadEntry.key ∘ fun d => if d.key = e.key then e else d)
        = head.map HeadEntry.key := by
      refine List.map_congr_left fun d _ => ?_
      simp only [Function.comp_apply]
      split
      · rename_i h
        exact h.symm
      · rfl
    rwa [hkeys]
  | remove e => exact hk.sublist (List.filter_sublist.map _)

theorem mem_edit_add_iff {e x : HeadEntry} (hp : (add e).Fits head) :
    x ∈ (add e).edit head ↔ x = e ∨ x ∈ head ∧ x.key ≠ e.key := by
  have hne : ∀ d ∈ head, d.key ≠ e.key := fun d hd h => hp (List.mem_map.mpr ⟨d, hd, h⟩)
  rw [edit, List.mem_append, List.mem_singleton, or_comm]
  exact or_congr_right ⟨fun h => ⟨h, hne x h⟩, And.left⟩

theorem mem_edit_update_iff {e x : HeadEntry} (hp : (update e).Fits head) :
    x ∈ (update e).edit head ↔ x = e ∨ x ∈ head ∧ x.key ≠ e.key := by
  obtain ⟨b, hb, hbe⟩ := List.mem_map.mp hp
  rw [edit, List.mem_map]
  constructor
  · rintro ⟨d, hd, rfl⟩
    by_cases h : d.key = e.key
    · exact Or.inl (if_pos h)
    · rw [if_neg h]
      exact Or.inr ⟨hd, h⟩
  · rintro (rfl | ⟨hx, h⟩)
    · exact ⟨b, hb, if_pos hbe⟩
    · exact ⟨x, hx, if_neg h⟩

theorem mem_edit_remove_iff {e x : HeadEntry} :
    x ∈ (remove e).edit head ↔ x ∈ head ∧ x.key ≠ e.key := by
  rw [edit, List.mem_filter, decide_eq_true_eq]

end HeadPatch

/-! ### The surface takes changes that fit -/

namespace HeadEntry

variable {head : List HeadEntry}

theorem set_of_findIdx? {k : String} {e : HeadEntry} {i : Nat} (hk : (head.map key).Nodup)
    (hi : head.findIdx? (fun d => d.key == k) = some i) :
    head.set i e = head.map fun d => if d.key = k then e else d := by
  induction head generalizing i with
  | nil => exact absurd hi (by simp)
  | cons d head ih =>
    obtain ⟨hd, hk⟩ := List.nodup_cons.mp hk
    rw [List.findIdx?_cons] at hi
    by_cases h : d.key = k
    · rw [if_pos (beq_iff_eq.mpr h), Option.some.injEq] at hi
      subst hi
      rw [List.set_cons_zero, List.map_cons, if_pos h]
      have hrest : ∀ b ∈ head, (if b.key = k then e else b) = b := fun b hb =>
        if_neg fun hbk => hd (List.mem_map.mpr ⟨b, hb, hbk.trans h.symm⟩)
      rw [List.map_congr_left hrest, List.map_id']
    · rw [if_neg (by simpa using h), Option.map_eq_some_iff] at hi
      obtain ⟨j, hj, rfl⟩ := hi
      rw [List.set_cons_succ, List.map_cons, if_neg h, ih hk hj]

theorem eraseIdx_of_findIdx? {k : String} {i : Nat} (hk : (head.map key).Nodup)
    (hi : head.findIdx? (fun d => d.key == k) = some i) :
    head.eraseIdx i = head.filter fun d => d.key ≠ k := by
  induction head generalizing i with
  | nil => exact absurd hi (by simp)
  | cons d head ih =>
    obtain ⟨hd, hk⟩ := List.nodup_cons.mp hk
    rw [List.findIdx?_cons] at hi
    by_cases h : d.key = k
    · rw [if_pos (beq_iff_eq.mpr h), Option.some.injEq] at hi
      subst hi
      rw [List.eraseIdx_cons_zero, List.filter_cons_of_neg (by simpa using h)]
      refine (List.filter_eq_self.mpr fun b hb => ?_).symm
      exact decide_eq_true fun hbk => hd (List.mem_map.mpr ⟨b, hb, hbk.trans h.symm⟩)
    · rw [if_neg (by simpa using h), Option.map_eq_some_iff] at hi
      obtain ⟨j, hj, rfl⟩ := hi
      rw [List.eraseIdx_cons_succ, List.filter_cons_of_pos (by simpa using h), ih hk hj]

theorem exists_findIdx? {k : String} (h : k ∈ head.map key) :
    ∃ i, head.findIdx? (fun d => d.key == k) = some i := by
  obtain ⟨d, hd, hk⟩ := List.mem_map.mp h
  refine Option.isSome_iff_exists.mp ?_
  rw [List.findIdx?_isSome]
  exact List.any_eq_true.mpr ⟨d, hd, beq_iff_eq.mpr hk⟩

theorem findIdx?_eq_none {k : String} (h : k ∉ head.map key) :
    head.findIdx? (fun d => d.key == k) = none := by
  refine List.findIdx?_eq_none_iff.mpr fun d hd => ?_
  exact beq_eq_false_iff_ne.mpr fun hk => h (List.mem_map.mpr ⟨d, hd, hk⟩)

end HeadEntry

theorem Surface.run_applyHead {s : Surface} {p : HeadPatch}
    (hk : (s.head.map HeadEntry.key).Nodup) (hp : p.Fits s.head) :
    (applyHead p).run s = .ok () { s with head := p.edit s.head } := by
  rw [applyHead, run_get_bind]
  cases p with
  | add e =>
    simp only [HeadPatch.entry, HeadEntry.findIdx?_eq_none hp]
    rfl
  | update e =>
    obtain ⟨i, hi⟩ := HeadEntry.exists_findIdx? hp
    simp only [HeadPatch.entry, hi]
    rw [HeadPatch.edit, ← HeadEntry.set_of_findIdx? hk hi]
    rfl
  | remove e =>
    obtain ⟨i, hi⟩ := HeadEntry.exists_findIdx? hp
    simp only [HeadPatch.entry, hi]
    rw [HeadPatch.edit, ← HeadEntry.eraseIdx_of_findIdx? hk hi]
    rfl

/-! ### What a difference of heads is made of -/

namespace HeadEntry

variable {old new : List HeadEntry}

/-- The change for a new entry, if it needs one. -/
def arrival (old : List HeadEntry) (e : HeadEntry) : Option HeadPatch :=
  match latest old e.key with
  | none => some (.add e)
  | some previous => if previous = e then none else some (.update e)

theorem latest_eq_some_iff (hk : (old.map key).Nodup) {k : String} {e : HeadEntry} :
    latest old k = some e ↔ e ∈ old ∧ e.key = k := by
  constructor
  · intro h
    exact ⟨List.mem_reverse.mp (List.mem_of_find?_eq_some h), by simpa using List.find?_some h⟩
  · rintro ⟨he, rfl⟩
    cases h : latest old e.key with
    | none =>
      have hno := List.find?_eq_none.mp h e (List.mem_reverse.mpr he)
      exact absurd hno (by simp)
    | some d =>
      have hd := List.mem_reverse.mp (List.mem_of_find?_eq_some h)
      have hkey : d.key = e.key := by simpa using List.find?_some h
      exact congrArg some (List.inj_on_of_nodup_map hk hd he hkey)

theorem latest_eq_none_iff {k : String} : latest old k = none ↔ k ∉ old.map key := by
  rw [latest, List.find?_eq_none]
  simp only [List.mem_reverse, beq_iff_eq, List.mem_map, not_exists, not_and]

theorem arrivals_eq (old : List HeadEntry) (settled : List String) (hn : (new.map key).Nodup)
    (hs : ∀ e ∈ new, e.key ∉ settled) :
    (arrivals old settled new).1 = new.filterMap (arrival old)
      ∧ ∀ k, k ∈ (arrivals old settled new).2
        ↔ k ∈ settled ∨ k ∈ new.map key ∧ k ∈ old.map key := by
  -- `settled` grows by keys of entries that were met, which is why it is generalised; `hs` says that it
  -- never holds a key that is still to come.
  induction new generalizing settled with
  | nil => simp [arrivals]
  | cons e new ih =>
    obtain ⟨he, hn⟩ := List.nodup_cons.mp hn
    have hrest : ∀ d ∈ new, d.key ∉ settled := fun d hd => hs d (List.mem_cons_of_mem _ hd)
    rw [arrivals, if_neg (hs e List.mem_cons_self)]
    cases hl : latest old e.key with
    | none =>
      obtain ⟨ih1, ih2⟩ := ih settled hn hrest
      have hpatch : arrival old e = some (.add e) := by rw [arrival, hl]
      have hold := latest_eq_none_iff.mp hl
      refine ⟨?_, fun k => ?_⟩
      · rw [List.filterMap_cons_some hpatch, ← ih1]
      · refine (ih2 k).trans (or_congr_right (and_congr_left fun hk => ?_))
        rw [List.map_cons, List.mem_cons]
        refine ⟨Or.inr, fun h => h.resolve_left ?_⟩
        rintro rfl
        exact hold hk
    | some previous =>
      have hold : e.key ∈ old.map key := by
        by_contra hno
        rw [latest_eq_none_iff.mpr hno] at hl
        exact nomatch hl
      obtain ⟨ih1, ih2⟩ := ih (e.key :: settled) hn fun d hd hm => by
        rcases List.mem_cons.mp hm with h | h
        · exact he (h ▸ List.mem_map_of_mem hd)
        · exact hrest d hd h
      refine ⟨?_, fun k => ?_⟩
      · by_cases hsame : previous = e
        · have hpatch : arrival old e = none := by rw [arrival, hl]; exact if_pos hsame
          rw [List.filterMap_cons_none hpatch, ← ih1]
          exact if_pos hsame
        · have hpatch : arrival old e = some (.update e) := by rw [arrival, hl]; exact if_neg hsame
          rw [List.filterMap_cons_some hpatch, ← ih1]
          exact if_neg hsame
      · rw [ih2 k, List.map_cons, List.mem_cons, List.mem_cons]
        constructor
        · rintro ((rfl | h) | h)
          · exact Or.inr ⟨Or.inl rfl, hold⟩
          · exact Or.inl h
          · exact Or.inr ⟨Or.inr h.1, h.2⟩
        · rintro (h | ⟨rfl | h, h'⟩)
          · exact Or.inl (Or.inr h)
          · exact Or.inl (Or.inl rfl)
          · exact Or.inr ⟨h, h'⟩

theorem departures_eq (hk : (old.map key).Nodup) (settled : List String) :
    departures settled old = (old.filter fun e => e.key ∉ settled).map .remove := by
  induction old generalizing settled with
  | nil => rfl
  | cons e old ih =>
    obtain ⟨he, hk⟩ := List.nodup_cons.mp hk
    rw [departures]
    split
    · rename_i h
      rw [ih hk, List.filter_cons_of_neg (by simpa using h)]
    · rename_i h
      rw [ih hk, List.filter_cons_of_pos (by simpa using h), List.map_cons]
      have hrest : ∀ d ∈ old, decide (d.key ∉ e.key :: settled) = decide (d.key ∉ settled) := by
        intro d hd
        have hne : d.key ≠ e.key := fun hde => he (hde ▸ List.mem_map_of_mem hd)
        simp [hne]
      rw [List.filter_congr hrest]

/-- A difference holds the changes for the new entries, and then the removals of those old ones
whose keys are gone. -/
theorem diff_eq (hold : (old.map key).Nodup) (hnew : (new.map key).Nodup) :
    diff old new = new.filterMap (arrival old)
      ++ (old.filter fun e => e.key ∉ new.map key).map .remove := by
  obtain ⟨hcome, hsettled⟩ := arrivals_eq old [] hnew fun _ _ => List.not_mem_nil
  have hgone : departures (arrivals old [] new).2 old
      = (old.filter fun e => e.key ∉ new.map key).map .remove := by
    rw [departures_eq hold]
    refine congrArg _ (List.filter_congr fun e he => ?_)
    have := hsettled e.key
    simp only [List.not_mem_nil, false_or, List.mem_map_of_mem he, and_true] at this
    rw [decide_eq_decide, this]
  rw [diff, hcome, hgone]

/-! ### Halfway -/

/-- What is there when `done` has come and the entries of `gone` have been removed: those that
came, and of the old ones those whose key is neither of one that came nor of one removed. -/
structure Halfway (old done : List HeadEntry) (gone : List HeadEntry) (now : List HeadEntry) :
    Prop where
  keys : (now.map key).Nodup
  mem_iff : ∀ e, e ∈ now ↔ e ∈ done
    ∨ e ∈ old ∧ e.key ∉ done.map key ∧ e.key ∉ gone.map key

variable {done gone now : List HeadEntry}

theorem Halfway.start {cur : List HeadEntry} (hk : (old.map key).Nodup) (hp : cur.Perm old) :
    Halfway old [] [] cur := by
  refine ⟨(hp.map key).nodup_iff.mpr hk, fun e => ?_⟩
  rw [hp.mem_iff]
  simp

/-- An entry comes in the place of the old one of its key, or beside all others. -/
theorem Halfway.comes (h : Halfway old done [] now) {e : HeadEntry} (he : e.key ∉ done.map key)
    {now' : List HeadEntry} (hk : (now'.map key).Nodup)
    (hmem : ∀ x, x ∈ now' ↔ x = e ∨ x ∈ now ∧ x.key ≠ e.key) :
    Halfway old (done ++ [e]) [] now' := by
  refine ⟨hk, fun x => ?_⟩
  rw [hmem, h.mem_iff, List.mem_append, List.mem_singleton, List.map_append, List.map_singleton,
    List.mem_append, List.mem_singleton]
  have hdone : x ∈ done → x.key ≠ e.key := fun hx hxe => he (hxe ▸ List.mem_map_of_mem hx)
  constructor
  · rintro (h | ⟨h | ⟨h1, h2, h3⟩, hne⟩)
    · exact Or.inl (Or.inr h)
    · exact Or.inl (Or.inl h)
    · exact Or.inr ⟨h1, fun h => h.elim h2 hne, h3⟩
  · rintro ((h | h) | ⟨h1, h2, h3⟩)
    · exact Or.inr ⟨Or.inl h, hdone h⟩
    · exact Or.inl h
    · exact Or.inr ⟨Or.inr ⟨h1, fun h => h2 (Or.inl h), h3⟩, fun h => h2 (Or.inr h)⟩

theorem Halfway.goes (h : Halfway old done gone now) {e : HeadEntry} (he : e.key ∉ done.map key)
    {now' : List HeadEntry} (hk : (now'.map key).Nodup)
    (hmem : ∀ x, x ∈ now' ↔ x ∈ now ∧ x.key ≠ e.key) :
    Halfway old done (gone ++ [e]) now' := by
  refine ⟨hk, fun x => ?_⟩
  rw [hmem, h.mem_iff, List.map_append, List.map_singleton, List.mem_append, List.mem_singleton,
    not_or]
  have hdone : x ∈ done → x.key ≠ e.key := fun hx hxe => he (hxe ▸ List.mem_map_of_mem hx)
  constructor
  · rintro ⟨h | ⟨h1, h2, h3⟩, hne⟩
    · exact Or.inl h
    · exact Or.inr ⟨h1, h2, h3, hne⟩
  · rintro (h | ⟨h1, h2, h3, hne⟩)
    · exact ⟨Or.inl h, hdone h⟩
    · exact ⟨Or.inr ⟨h1, h2, h3⟩, hne⟩

end HeadEntry

namespace Surface

open HeadEntry

variable {s : Surface} {old new done gone : List HeadEntry}

theorem run_arrivals (hold : (old.map key).Nodup) {rest : List HeadEntry}
    (hh : Halfway old done [] s.head) (hnew : ((done ++ rest).map key).Nodup) :
    ∃ last, ((rest.filterMap (arrival old)).forM applyHead).run s = .ok () { s with head := last }
      ∧ Halfway old (done ++ rest) [] last := by
  -- The invariant is `Halfway`: the entries in `done` have come, the old ones of other keys are there.
  induction rest generalizing s done with
  | nil => exact ⟨s.head, rfl, by rwa [List.append_nil]⟩
  | cons e rest ih =>
    have hsplit : done ++ e :: rest = (done ++ [e]) ++ rest := by simp
    have he : e.key ∉ done.map key := by
      rw [List.map_append, List.map_cons, List.nodup_append] at hnew
      exact fun hm => hnew.2.2 _ hm _ List.mem_cons_self rfl
    rw [hsplit] at hnew ⊢
    cases hl : latest old e.key with
    | none =>
      have hpatch : arrival old e = some (.add e) := by rw [arrival, hl]
      have hfits : (HeadPatch.add e).Fits s.head := by
        intro hm
        obtain ⟨d, hd, hde⟩ := List.mem_map.mp hm
        rcases (hh.mem_iff d).mp hd with hd | ⟨hd, -⟩
        · exact he (hde ▸ List.mem_map_of_mem hd)
        · exact latest_eq_none_iff.mp hl (hde ▸ List.mem_map_of_mem hd)
      have hnext := hh.comes he (HeadPatch.nodup_edit hh.keys hfits) fun x =>
        HeadPatch.mem_edit_add_iff hfits
      obtain ⟨last, hrun, hlast⟩ := ih (s := { s with head := _ }) hnext hnew
      refine ⟨last, ?_, hlast⟩
      rw [List.filterMap_cons_some hpatch, run_forM_cons_of_ok (run_applyHead hh.keys hfits)]
      exact hrun
    | some previous =>
      obtain ⟨hp, hkey⟩ := (latest_eq_some_iff hold).mp hl
      have hthere : previous ∈ s.head :=
        (hh.mem_iff previous).mpr (Or.inr ⟨hp, hkey ▸ he, List.not_mem_nil⟩)
      by_cases hsame : previous = e
      · have hpatch : arrival old e = none := by rw [arrival, hl]; exact if_pos hsame
        -- the entry is there as it was, and counts as one that came
        subst hsame
        have hnext := hh.comes he hh.keys fun x => by
          refine ⟨fun hx => ?_, fun hx => hx.elim (fun h => h ▸ hthere) And.left⟩
          by_cases hxk : x.key = previous.key
          · exact Or.inl (List.inj_on_of_nodup_map hh.keys hx hthere hxk)
          · exact Or.inr ⟨hx, hxk⟩
        rw [List.filterMap_cons_none hpatch]
        exact ih hnext hnew
      · have hpatch : arrival old e = some (.update e) := by rw [arrival, hl]; exact if_neg hsame
        have hfits : (HeadPatch.update e).Fits s.head := List.mem_map.mpr ⟨previous, hthere, hkey⟩
        have hnext := hh.comes he (HeadPatch.nodup_edit hh.keys hfits) fun x =>
          HeadPatch.mem_edit_update_iff hfits
        obtain ⟨last, hrun, hlast⟩ := ih (s := { s with head := _ }) hnext hnew
        refine ⟨last, ?_, hlast⟩
        rw [List.filterMap_cons_some hpatch, run_forM_cons_of_ok (run_applyHead hh.keys hfits)]
        exact hrun

theorem run_departures {rest : List HeadEntry} (hrest : ∀ e ∈ rest, e ∈ old ∧ e.key ∉ new.map key)
    (hk : ((gone ++ rest).map key).Nodup) (hh : Halfway old new gone s.head) :
    ∃ last, ((rest.map .remove).forM applyHead).run s = .ok () { s with head := last }
      ∧ Halfway old new (gone ++ rest) last := by
  induction rest generalizing s gone with
  | nil => exact ⟨s.head, rfl, by rwa [List.append_nil]⟩
  | cons e rest ih =>
    have hsplit : gone ++ e :: rest = (gone ++ [e]) ++ rest := by simp
    have he : e.key ∉ gone.map key := by
      rw [List.map_append, List.map_cons, List.nodup_append] at hk
      exact fun hm => hk.2.2 _ hm _ List.mem_cons_self rfl
    rw [hsplit] at hk ⊢
    obtain ⟨heold, henew⟩ := hrest e List.mem_cons_self
    have hfits : (HeadPatch.remove e).Fits s.head :=
      List.mem_map_of_mem ((hh.mem_iff e).mpr (Or.inr ⟨heold, henew, he⟩))
    have hnext := hh.goes henew (HeadPatch.nodup_edit hh.keys hfits) fun x =>
      HeadPatch.mem_edit_remove_iff
    obtain ⟨last, hrun, hlast⟩ := ih (s := { s with head := _ })
      (fun d hd => hrest d (List.mem_cons_of_mem _ hd)) hk hnext
    refine ⟨last, ?_, hlast⟩
    rw [List.map_cons, run_forM_cons_of_ok (run_applyHead hh.keys hfits)]
    exact hrun

/-- A head that holds the old entries in some order takes the changes to the new ones, and then
holds these in some order. -/
theorem applyHead_diff (hold : (old.map key).Nodup) (hnew : (new.map key).Nodup)
    (hs : s.head.Perm old) :
    ∃ last, ((diff old new).forM applyHead).run s = .ok () { s with head := last }
      ∧ last.Perm new := by
  obtain ⟨mid, hrun, hmid⟩ := run_arrivals hold (Halfway.start hold hs) hnew
  have hrest : ∀ e ∈ old.filter fun e => e.key ∉ new.map key, e ∈ old ∧ e.key ∉ new.map key :=
    fun e he => by simpa using List.mem_filter.mp he
  obtain ⟨last, hrun', hlast⟩ := run_departures (s := { s with head := mid }) hrest
    (hold.sublist (List.filter_sublist.map _)) hmid
  refine ⟨last, ?_, ?_⟩
  · rw [diff_eq hold hnew, run_forM_append_of_ok hrun]
    exact hrun'
  · refine (List.perm_ext_iff_of_nodup (List.Nodup.of_map _ hlast.keys)
      (List.Nodup.of_map _ hnew)).mpr fun e => ?_
    rw [hlast.mem_iff]
    refine ⟨fun h => h.resolve_right ?_, Or.inl⟩
    rintro ⟨he, hne, hgone⟩
    exact hgone (List.mem_map_of_mem (List.mem_filter.mpr ⟨he, decide_eq_true hne⟩))

end Surface

end ViewLoop
