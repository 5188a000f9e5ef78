import ViewLoop.Proofs.HeadChanges

/-!
# The order of the head

A head keeps its own order, which is not the order of the lists that differences are taken of. Its
keys change with each patch that it takes (`HeadPatch.editKeys`), and they tell where each entry
stands. So what the head holds after a difference is known in full: the entries that stay, each in
its place and as it is in the new list, and behind them the entries that are new
(`Surface.head_roundtrip`).
-/

namespace ViewLoop

/-! ### Keys in order -/

namespace HeadPatch

/-- The keys of a head after a change. -/
def editKeys (keys : List String) : HeadPatch → List String
  | add e => keys ++ [e.key]
  | update _ => keys
  | remove e => keys.filter fun k => k ≠ e.key

theorem map_key_edit (head : List HeadEntry) (p : HeadPatch) :
    (p.edit head).map HeadEntry.key = p.editKeys (head.map HeadEntry.key) := by
  cases p with
  | add e => simp only [edit, editKeys, List.map_append, List.map_singleton]
  | update e =>
    simp only [edit, editKeys, List.map_map]
    refine List.map_congr_left fun d _ => ?_
    by_cases h : d.key = e.key <;> simp [h]
  | remove e =>
    simp only [edit, editKeys, List.filter_map]
    rfl

end HeadPatch

namespace HeadEntry

variable {shown old new : List HeadEntry}

/-- Additions put their keys behind the others, and updates leave the keys as they are. -/
theorem foldl_arrivals (old new : List HeadEntry) (keys : List String) :
    (new.filterMap (arrival old)).foldl HeadPatch.editKeys keys
      = keys ++ (new.filter fun e => e.key ∉ old.map key).map key := by
  induction new generalizing keys with
  | nil => simp
  | cons e new ih =>
    cases hl : latest old e.key with
    | none =>
      have hpatch : arrival old e = some (.add e) := by rw [arrival, hl]
      have hcomes : (e :: new).filter (fun e => e.key ∉ old.map key)
          = e :: new.filter fun e => e.key ∉ old.map key :=
        List.filter_cons_of_pos (decide_eq_true (latest_eq_none_iff.mp hl))
      rw [hcomes, List.filterMap_cons_some hpatch, List.foldl_cons, ih, HeadPatch.editKeys,
        List.map_cons, List.append_assoc]
      rfl
    | some previous =>
      have hold : e.key ∈ old.map key := by
        by_contra hno
        exact absurd (hl.symm.trans (latest_eq_none_iff.mpr hno)) (Option.some_ne_none _)
      have hkept : (e :: new).filter (fun e => e.key ∉ old.map key)
          = new.filter fun e => e.key ∉ old.map key := List.filter_cons_of_neg (by simpa using hold)
      rw [hkept]
      by_cases hsame : previous = e
      · have hpatch : arrival old e = none := by rw [arrival, hl]; exact if_pos hsame
        rw [List.filterMap_cons_none hpatch, ih]
      · have hpatch : arrival old e = some (.update e) := by rw [arrival, hl]; exact if_neg hsame
        rw [List.filterMap_cons_some hpatch, List.foldl_cons, ih, HeadPatch.editKeys]

theorem foldl_departures (gone : List HeadEntry) (keys : List String) :
    (gone.map HeadPatch.remove).foldl HeadPatch.editKeys keys
      = keys.filter fun k => k ∉ gone.map key := by
  induction gone generalizing keys with
  | nil => simp
  | cons e gone ih =>
    rw [List.map_cons, List.foldl_cons, ih, HeadPatch.editKeys, List.filter_filter]
    refine List.filter_congr fun k _ => ?_
    rw [List.map_cons, ← Bool.decide_and, decide_eq_decide, List.mem_cons, not_or]
    exact and_comm

end HeadEntry

/-! ### What a surface takes -/

namespace Surface

open HeadEntry

variable {s s' : Surface}

/-- A surface takes no change that does not fit. -/
theorem fits_of_applyHead {p : HeadPatch} (h : (applyHead p).run s = .ok () s') : p.Fits s.head := by
  rw [applyHead, run_get_bind] at h
  by_contra hno
  cases p with
  | add e =>
    obtain ⟨i, hi⟩ := exists_findIdx? (not_not.mp hno)
    simp only [HeadPatch.entry, hi] at h
    cases h
  | update e =>
    simp only [HeadPatch.entry, findIdx?_eq_none hno] at h
    cases h
  | remove e =>
    simp only [HeadPatch.entry, findIdx?_eq_none hno] at h
    cases h

theorem map_key_of_forM {ps : List HeadPatch} (hk : (s.head.map key).Nodup)
    (h : (ps.forM applyHead).run s = .ok () s') :
    s'.head.map key = ps.foldl HeadPatch.editKeys (s.head.map key) := by
  induction ps generalizing s with
  | nil =>
    obtain ⟨-, rfl⟩ := EStateM.Result.ok.inj h
    rfl
  | cons p ps ih =>
    obtain ⟨_, s₁, hfirst, hrest⟩ := exists_of_run_bind_eq_ok h
    have hfits := fits_of_applyHead hfirst
    rw [run_applyHead hk hfits] at hfirst
    obtain ⟨-, rfl⟩ := EStateM.Result.ok.inj hfirst
    rw [ih (HeadPatch.nodup_edit hk hfits) hrest, List.foldl_cons, HeadPatch.map_key_edit]

end Surface

/-! ### The entries in order -/

namespace HeadEntry

variable {shown old new : List HeadEntry}

/-- What a head holds after the change from the old entries to the new ones: what stays, where it
stood and as it is now, and behind it what comes. -/
def merged (shown old new : List HeadEntry) : List HeadEntry :=
  (shown.filterMap fun d => latest new d.key) ++ new.filter fun e => e.key ∉ old.map key

theorem map_key_staying (hnew : (new.map key).Nodup) (shown : List HeadEntry) :
    (shown.filterMap fun d => latest new d.key).map key
      = (shown.map key).filter fun k => k ∈ new.map key := by
  induction shown with
  | nil => rfl
  | cons d shown ih =>
    rw [List.map_cons, List.filterMap_cons, List.filter_cons]
    cases hl : latest new d.key with
    | none =>
      have hno := latest_eq_none_iff.mp hl
      simp only [hno, decide_false, Bool.false_eq_true, if_false, ih]
    | some e =>
      obtain ⟨he, hkey⟩ := (latest_eq_some_iff hnew).mp hl
      have hin : d.key ∈ new.map key := hkey ▸ List.mem_map_of_mem he
      simp only [hin, decide_true, if_true, List.map_cons, hkey, ih]

/-- The head has the same keys, in the same order, as after the patches. -/
theorem map_key_merged (hold : (old.map key).Nodup) (hnew : (new.map key).Nodup)
    (hs : shown.Perm old) :
    (merged shown old new).map key
      = (diff old new).foldl HeadPatch.editKeys (shown.map key) := by
  have hgone : ∀ k, k ∈ (old.filter fun e => e.key ∉ new.map key).map key
      ↔ k ∈ old.map key ∧ k ∉ new.map key := by
    intro k
    simp only [List.mem_map, List.mem_filter, decide_eq_true_eq]
    constructor
    · rintro ⟨d, ⟨hd, hno⟩, rfl⟩
      exact ⟨⟨d, hd, rfl⟩, hno⟩
    · rintro ⟨⟨d, hd, rfl⟩, hno⟩
      exact ⟨d, ⟨hd, hno⟩, rfl⟩
  rw [diff_eq hold hnew, List.foldl_append, foldl_arrivals, foldl_departures, merged,
    List.map_append, map_key_staying hnew, List.filter_append]
  congr 1
  · refine List.filter_congr fun k hk => ?_
    have hkold : k ∈ old.map key := (hs.map key).mem_iff.mp hk
    rw [decide_eq_decide, hgone]
    simp only [hkold, true_and, not_not]
  · refine (List.filter_eq_self.mpr fun k hk => ?_).symm
    obtain ⟨e, he, rfl⟩ := List.mem_map.mp hk
    have hno := of_decide_eq_true (List.mem_filter.mp he).2
    rw [decide_eq_true_eq, hgone]
    exact fun h => hno h.1

theorem merged_subset (hnew : (new.map key).Nodup) (shown old : List HeadEntry) :
    merged shown old new ⊆ new := by
  intro e he
  rcases List.mem_append.mp he with h | h
  · obtain ⟨d, -, hd⟩ := List.mem_filterMap.mp h
    exact ((latest_eq_some_iff hnew).mp hd).1
  · exact List.mem_of_mem_filter h

/-- Entries of a list with distinct keys are told by their keys. -/
theorem eq_of_map_key_eq (hnew : (new.map key).Nodup) {l l' : List HeadEntry} (hl : l ⊆ new)
    (hl' : l' ⊆ new) (h : l.map key = l'.map key) : l = l' := by
  induction l generalizing l' with
  | nil => exact (List.map_eq_nil_iff.mp h.symm).symm
  | cons e l ih =>
    obtain ⟨e', rest, rfl, hkey, hrest⟩ := List.map_eq_cons_iff.mp h.symm
    obtain ⟨he, hl⟩ := List.cons_subset.mp hl
    obtain ⟨he', hl'⟩ := List.cons_subset.mp hl'
    rw [List.inj_on_of_nodup_map hnew he he' hkey.symm, ih hl hl' hrest.symm]

/-! ### The patches -/

/-- The change from the old entries to the new ones asks for the patch: it adds an entry whose key is
new, updates one that has become another, or removes one whose key is gone. -/
def Asks (old new : List HeadEntry) : HeadPatch → Prop
  | .add e => e ∈ new ∧ e.key ∉ old.map key
  | .update e => e ∈ new ∧ ∃ d ∈ old, d.key = e.key ∧ d ≠ e
  | .remove e => e ∈ old ∧ e.key ∉ new.map key

theorem arrival_eq_some_iff (hold : (old.map key).Nodup) {e : HeadEntry} {p : HeadPatch} :
    arrival old e = some p ↔ (p = .add e ∧ e.key ∉ old.map key)
      ∨ (p = .update e ∧ ∃ d ∈ old, d.key = e.key ∧ d ≠ e) := by
  cases hl : latest old e.key with
  | none =>
    have hno := latest_eq_none_iff.mp hl
    have hnone : ¬∃ d ∈ old, d.key = e.key ∧ d ≠ e := fun ⟨d, hd, hkey, _⟩ =>
      hno (hkey ▸ List.mem_map_of_mem hd)
    simp only [arrival, hl, Option.some.injEq, hno, hnone, not_false_eq_true, and_true, and_false,
      or_false]
    exact eq_comm
  | some d =>
    obtain ⟨hd, hkey⟩ := (latest_eq_some_iff hold).mp hl
    have hin : e.key ∈ old.map key := hkey ▸ List.mem_map_of_mem hd
    have honly : (∃ b ∈ old, b.key = e.key ∧ b ≠ e) ↔ d ≠ e := by
      constructor
      · rintro ⟨b, hb, hbkey, hne⟩
        rwa [List.inj_on_of_nodup_map hold hd hb (hkey.trans hbkey.symm)]
      · exact fun hne => ⟨d, hd, hkey, hne⟩
    simp only [arrival, hl, hin, honly, not_true_eq_false, and_false, false_or]
    by_cases hsame : d = e
    · simp [hsame]
    · simp [hsame, eq_comm]

theorem mem_diff_iff (hold : (old.map key).Nodup) (hnew : (new.map key).Nodup) (p : HeadPatch) :
    p ∈ diff old new ↔ Asks old new p := by
  simp only [diff_eq hold hnew, List.mem_append, List.mem_filterMap, arrival_eq_some_iff hold,
    List.mem_map, List.mem_filter, decide_eq_true_eq]
  cases p <;> simp [Asks]

theorem entry_of_arrival (hold : (old.map key).Nodup) {e : HeadEntry} {p : HeadPatch}
    (h : arrival old e = some p) : p.entry = e := by
  rcases (arrival_eq_some_iff hold).mp h with ⟨rfl, -⟩ | ⟨rfl, -⟩ <;> rfl

theorem entries_arrivals (hold : (old.map key).Nodup) (new : List HeadEntry) :
    ((new.filterMap (arrival old)).map HeadPatch.entry).Sublist new := by
  induction new with
  | nil => exact List.Sublist.refl []
  | cons e new ih =>
    cases h : arrival old e with
    | none =>
      rw [List.filterMap_cons_none h]
      exact ih.cons e
    | some p =>
      rw [List.filterMap_cons_some h, List.map_cons, entry_of_arrival hold h]
      exact ih.cons_cons e

/-- No key has two patches. -/
theorem nodup_diff (hold : (old.map key).Nodup) (hnew : (new.map key).Nodup) :
    ((diff old new).map fun p => p.entry.key).Nodup := by
  have hcome := (entries_arrivals hold new).map key
  have hgone : ((old.filter fun e => e.key ∉ new.map key).map key).Nodup :=
    hold.sublist (List.filter_sublist.map key)
  rw [List.map_map] at hcome
  rw [diff_eq hold hnew, List.map_append, List.map_map]
  refine List.nodup_append.mpr ⟨hnew.sublist hcome, hgone, fun k hk l hl hkl => ?_⟩
  obtain ⟨d, hd, rfl⟩ := List.mem_map.mp hl
  have hno := of_decide_eq_true (List.mem_filter.mp hd).2
  have hkept := hcome.subset hk
  rw [hkl] at hkept
  exact hno hkept

end HeadEntry

/-- A head that holds the old entries in any order takes every patch of their difference to the new
ones. It then holds the entries that stay in their places, each as it is in the new list, and behind
them the entries whose keys are new, in the order of the new list; these are the new entries in some
order. The patches are those that the change asks for and no others, one for each key: additions and
updates in new order, then removals in old order. -/
theorem Surface.head_roundtrip {s : Surface} {old new : List HeadEntry}
    (hold : (old.map HeadEntry.key).Nodup) (hnew : (new.map HeadEntry.key).Nodup)
    (hs : s.head.Perm old) :
    let last := HeadEntry.merged s.head old new
    ((HeadEntry.diff old new).forM applyHead).run s = .ok () { s with head := last }
      ∧ last.Perm new
      ∧ (∀ p, p ∈ HeadEntry.diff old new ↔ HeadEntry.Asks old new p)
      ∧ ((HeadEntry.diff old new).map fun p => p.entry.key).Nodup
      ∧ HeadEntry.diff old new = new.filterMap (HeadEntry.arrival old)
        ++ (old.filter fun e => e.key ∉ new.map HeadEntry.key).map .remove := by
  obtain ⟨last, hrun, hperm⟩ := applyHead_diff hold hnew hs
  have hkeys := map_key_of_forM ((hs.map HeadEntry.key).nodup_iff.mpr hold) hrun
  have hlast : last = HeadEntry.merged s.head old new := by
    refine HeadEntry.eq_of_map_key_eq hnew hperm.subset (HeadEntry.merged_subset hnew _ _) ?_
    rw [HeadEntry.map_key_merged hold hnew hs]
    exact hkeys
  subst hlast
  exact ⟨hrun, hperm, HeadEntry.mem_diff_iff hold hnew, HeadEntry.nodup_diff hold hnew,
    HeadEntry.diff_eq hold hnew⟩

/-- A head that has come out of order. The base is updated in its place, the description stays, the
script goes, and a link comes to the end. -/
theorem Surface.head_roundtrip_of_shuffled :
    let old : List HeadEntry := [.metadata "description" "a", .script "/app.js", .base "/"]
    let new : List HeadEntry := [.link "icon" "/i", .base "/b", .metadata "description" "a"]
    let s : Surface := { fresh { scheme := "app", path := .segments [] } with
      head := [.base "/", .metadata "description" "a", .script "/app.js"] }
    ((old.map HeadEntry.key).Nodup ∧ (new.map HeadEntry.key).Nodup ∧ s.head.Perm old)
      ∧ HeadEntry.diff old new
        = [.add (.link "icon" "/i"), .update (.base "/b"), .remove (.script "/app.js")]
      ∧ ((HeadEntry.diff old new).forM applyHead).run s = .ok () { s with
        head := [.base "/b", .metadata "description" "a", .link "icon" "/i"] } := by
  intro old new s
  have hold : (old.map HeadEntry.key).Nodup := by decide
  have hnew : (new.map HeadEntry.key).Nodup := by decide
  have hs : s.head.Perm old := by decide
  obtain ⟨hrun, -, -, -, hdiff⟩ := head_roundtrip hold hnew hs
  refine ⟨⟨hold, hnew, hs⟩, ?_, ?_⟩
  · rw [hdiff]
    decide
  · rw [hrun]
    rfl

end ViewLoop
