import Mathlib.Data.List.Induction
import ViewLoop.Proofs.HeadOrder

/-!
# Keys of head entries

What an entry is about is its kind and the fields that its key is built from (`HeadEntry.Subject`).
Keys tell subjects apart, with one exception: the key of a link joins two texts by a colon, and
where the texts have colons themselves the joint can be taken for another one
(`HeadEntry.key_eq_iff`). So heads whose entries are about different things are shown one after
another unless one of them has two such links (`Surface.heads_shown_or_refused`).
-/

namespace ViewLoop

namespace HeadEntry

/-! ### Subjects -/

/-- What an entry is about: its kind, and the fields that identify it among those of its kind. -/
inductive Subject where
  | metadata (name : String)
  | property (name : String)
  | link (rel href : String)
  | script (src : String)
  | base
  deriving DecidableEq, Repr

def subject : HeadEntry → Subject
  | metadata name _ => .metadata name
  | property name _ => .property name
  | link rel href => .link rel href
  | script src => .script src
  | base _ => .base

/-- Two links that differ in the place of the joint: a text that the address of the first starts
with, up to a colon, ends the relation of the second. -/
def Shifts (a b : HeadEntry) : Prop :=
  ∃ rel middle href, a = link rel (middle ++ ":" ++ href) ∧ b = link (rel ++ ":" ++ middle) href

theorem shifts_link_iff {rel href rel' href' : String} :
    (link rel href).Shifts (link rel' href')
      ↔ ∃ middle, href = middle ++ ":" ++ href' ∧ rel' = rel ++ ":" ++ middle := by
  constructor
  · rintro ⟨_, middle, _, ha, hb⟩
    obtain ⟨rfl, rfl⟩ := link.inj ha
    obtain ⟨rfl, rfl⟩ := link.inj hb
    exact ⟨middle, rfl, rfl⟩
  · rintro ⟨middle, rfl, rfl⟩
    exact ⟨rel, middle, href', rfl, rfl⟩

/-! ### Keys -/

theorem shifts_of_split {rel href rel' href' : String} {middle : List Char}
    (hrel : rel'.toList = rel.toList ++ middle)
    (hhref : ':' :: href.toList = middle ++ ':' :: href'.toList) :
    (rel = rel' ∧ href = href') ∨ (link rel href).Shifts (link rel' href') := by
  cases middle with
  | nil =>
    rw [List.append_nil, String.toList_inj] at hrel
    exact Or.inl ⟨hrel.symm, String.toList_inj.mp (List.cons.inj hhref).2⟩
  | cons c middle =>
    rw [List.cons_append, List.cons.injEq] at hhref
    obtain ⟨rfl, hhref⟩ := hhref
    refine Or.inr (shifts_link_iff.mpr ⟨String.ofList middle, ?_, ?_⟩)
    · simp [← String.toList_inj, hhref]
    · simp [← String.toList_inj, hrel]

/-- The joint of a key is the same, or stands further right in one of the two links. -/
theorem key_link_eq_iff {rel href rel' href' : String} :
    (link rel href).key = (link rel' href').key ↔ (rel = rel' ∧ href = href')
      ∨ (link rel href).Shifts (link rel' href') ∨ (link rel' href').Shifts (link rel href) := by
  constructor
  · intro h
    have hlist : rel.toList ++ ':' :: href.toList = rel'.toList ++ ':' :: href'.toList := by
      simpa [key, ← String.toList_inj] using h
    rcases List.append_eq_append_iff.mp hlist with ⟨middle, hrel, hhref⟩ | ⟨middle, hrel, hhref⟩
    · exact (shifts_of_split hrel hhref).imp_right Or.inl
    · rcases shifts_of_split hrel hhref with ⟨rfl, rfl⟩ | h
      · exact Or.inl ⟨rfl, rfl⟩
      · exact Or.inr (Or.inr h)
  · rintro (⟨rfl, rfl⟩ | h | h)
    · rfl
    · obtain ⟨middle, rfl, rfl⟩ := shifts_link_iff.mp h
      simp [key, String.append_assoc]
    · obtain ⟨middle, rfl, rfl⟩ := shifts_link_iff.mp h
      simp [key, String.append_assoc]

/-- The keys of two entries are equal if they are about the same or are links that differ in the
place of the joint, and not otherwise. -/
theorem key_eq_iff (a b : HeadEntry) :
    a.key = b.key ↔ a.subject = b.subject ∨ a.Shifts b ∨ b.Shifts a := by
  cases a with
  | link rel href =>
    cases b with
    | link rel' href' => simp only [key_link_eq_iff, subject, Subject.link.injEq]
    | _ => simp [key, subject, Shifts, ← String.toList_inj]
  | _ => cases b <;> simp [key, subject, Shifts, ← String.toList_inj]

/-- No two links of the list differ only in the place of the joint. -/
def Legible (entries : List HeadEntry) : Prop := ∀ a ∈ entries, ∀ b ∈ entries, ¬a.Shifts b

/-- Relations without colons cannot be taken for longer ones. -/
theorem legible_of_rels {entries : List HeadEntry}
    (h : ∀ rel href, link rel href ∈ entries → ':' ∉ rel.toList) : Legible entries := by
  rintro _ - _ hb ⟨rel, middle, href, -, rfl⟩
  have hcolon := h _ _ hb
  simp at hcolon

theorem nodup_key_iff {entries : List HeadEntry} (h : (entries.map subject).Nodup) :
    (entries.map key).Nodup ↔ Legible entries := by
  have hentries : entries.Nodup := List.Nodup.of_map _ h
  rw [List.nodup_map_iff_inj_on hentries]
  constructor
  · intro hinj a ha b hb hshift
    have hab := hinj a ha b hb ((key_eq_iff a b).mpr (Or.inr (Or.inl hshift)))
    obtain ⟨rel, middle, href, rfl, hlink⟩ := hshift
    have hlength := congrArg String.length (link.inj (hab.trans hlink)).1
    have hcolon : ":".length = 1 := rfl
    simp only [String.length_append] at hlength
    omega
  · intro hlegible a ha b hb hkey
    rcases (key_eq_iff a b).mp hkey with hab | hab | hba
    · exact List.inj_on_of_nodup_map h ha hb hab
    · exact absurd hab (hlegible a ha b hb)
    · exact absurd hba (hlegible b hb a ha)

/-! ### Repeated keys -/

/-- A list in which a key is repeated, up to the first entry that repeats one. -/
theorem exists_repeated {entries : List HeadEntry} (h : ¬(entries.map key).Nodup) :
    ∃ before e rest, entries = before ++ e :: rest ∧ (before.map key).Nodup
      ∧ e.key ∈ before.map key := by
  induction entries using List.reverseRecOn with
  | nil => exact absurd List.nodup_nil h
  | append_singleton entries e ih =>
    by_cases hn : (entries.map key).Nodup
    · refine ⟨entries, e, [], rfl, hn, ?_⟩
      by_contra hno
      refine h ?_
      rw [List.map_append, List.map_singleton]
      exact hn.append (List.nodup_singleton _) (by simpa using hno)
    · obtain ⟨before, d, rest, rfl, hbefore, hd⟩ := ih hn
      exact ⟨before, d, rest ++ [e], by simp, hbefore, hd⟩

theorem arrivals_append (old : List HeadEntry) (settled : List String) (as bs : List HeadEntry) :
    (arrivals old settled (as ++ bs)).1
      = (arrivals old settled as).1 ++ (arrivals old (arrivals old settled as).2 bs).1 := by
  induction as generalizing settled with
  | nil => rfl
  | cons a as ih =>
    simp only [List.cons_append, arrivals]
    split
    · simp only [ih, List.cons_append]
    · simp only [ih]
      split <;> rfl

/-- The patches for a list in which a key is repeated add the entry that repeats it. -/
theorem arrivals_of_repeated (old : List HeadEntry) {before : List HeadEntry} {e : HeadEntry}
    (hbefore : (before.map key).Nodup) (he : e.key ∈ before.map key) (rest : List HeadEntry) :
    ∃ later, (arrivals old [] (before ++ e :: rest)).1
      = before.filterMap (arrival old) ++ .add e :: later := by
  obtain ⟨hcome, hsettled⟩ := arrivals_eq old [] hbefore fun _ _ => List.not_mem_nil
  refine ⟨(arrivals old (arrivals old [] before).2 rest).1, ?_⟩
  rw [arrivals_append, hcome, arrivals]
  -- the key is settled if an old entry had it, and is not found among the old ones otherwise
  have hnone : (if e.key ∈ (arrivals old [] before).2 then none else latest old e.key) = none := by
    split
    · rfl
    · rename_i hno
      refine latest_eq_none_iff.mpr fun hold => hno ?_
      exact (hsettled e.key).mpr (Or.inr ⟨he, hold⟩)
  rw [hnone]

end HeadEntry

/-! ### Heads one after another -/

namespace Surface

open HeadEntry

variable {s : Surface} {old new : List HeadEntry}

theorem run_applyHead_add_error {e : HeadEntry} (h : e.key ∈ s.head.map key) :
    (applyHead (.add e)).run s = .error (.duplicateHeadKey e.key) s := by
  obtain ⟨i, hi⟩ := exists_findIdx? h
  rw [applyHead, run_get_bind]
  simp only [HeadPatch.entry, hi]
  rfl

/-- A head refuses the change to a list in which a key is repeated. -/
theorem run_diff_of_repeated {before : List HeadEntry} {e : HeadEntry}
    (hold : (old.map key).Nodup) (hbefore : (before.map key).Nodup) (he : e.key ∈ before.map key)
    (hs : s.head.Perm old) (rest : List HeadEntry) :
    ∃ s', ((diff old (before ++ e :: rest)).forM applyHead).run s
      = .error (.duplicateHeadKey e.key) s' := by
  obtain ⟨later, hpatches⟩ := arrivals_of_repeated old hbefore he rest
  obtain ⟨mid, hrun, hmid⟩ := run_arrivals (s := s) hold (Halfway.start hold hs) hbefore
  have hthere : e.key ∈ mid.map key := by
    obtain ⟨d, hd, hkey⟩ := List.mem_map.mp he
    exact List.mem_map.mpr ⟨d, (hmid.mem_iff d).mpr (Or.inl hd), hkey⟩
  refine ⟨{ s with head := mid }, ?_⟩
  rw [diff, hpatches, List.append_assoc, run_forM_append_of_ok hrun, List.cons_append]
  exact run_bind_of_error (run_applyHead_add_error (s := { s with head := mid }) hthere) _

/-- A head refuses entries that are about different things if two of them are links that differ in
the place of the joint. -/
theorem run_diff_of_not_legible (hold : (old.map key).Nodup) (hnew : (new.map subject).Nodup)
    (hs : s.head.Perm old) (h : ¬Legible new) : ∃ a ∈ new, ∃ b ∈ new, a.Shifts b ∧ ∃ s',
      ((diff old new).forM applyHead).run s = .error (.duplicateHeadKey a.key) s' := by
  have hkeys : ¬(new.map key).Nodup := fun hkeys => h ((nodup_key_iff hnew).mp hkeys)
  obtain ⟨before, e, rest, rfl, hbefore, he⟩ := exists_repeated hkeys
  obtain ⟨s', hrun⟩ := run_diff_of_repeated hold hbefore he hs rest
  obtain ⟨d, hd, hkey⟩ := List.mem_map.mp he
  have hdnew : d ∈ before ++ e :: rest := List.mem_append_left _ hd
  have henew : e ∈ before ++ e :: rest := List.mem_append_right _ List.mem_cons_self
  have hsubject : d.subject ≠ e.subject := by
    rw [List.map_append, List.map_cons, List.nodup_append] at hnew
    exact hnew.2.2 _ (List.mem_map_of_mem hd) _ List.mem_cons_self
  rcases (key_eq_iff d e).mp hkey with h | h | h
  · exact absurd h hsubject
  · exact ⟨d, hdnew, e, henew, h, s', hkey ▸ hrun⟩
  · exact ⟨e, henew, d, hdnew, h, s', hrun⟩

/-- Shows heads one after another, from one that holds the old entries. -/
def showHeads (old : List HeadEntry) : List (List HeadEntry) → Edit Unit
  | [] => pure ()
  | new :: rest => do
    (diff old new).forM applyHead
    showHeads new rest

theorem run_showHeads_of_legible {heads : List (List HeadEntry)} (hold : (old.map key).Nodup)
    (hs : s.head.Perm old) (hheads : ∀ l ∈ heads, (l.map subject).Nodup ∧ Legible l) :
    ∃ last, (showHeads old heads).run s = .ok () { s with head := last }
      ∧ last.Perm ((old :: heads).getLast (List.cons_ne_nil _ _)) := by
  induction heads generalizing old s with
  | nil => exact ⟨s.head, rfl, hs⟩
  | cons new rest ih =>
    obtain ⟨hsubjects, hlegible⟩ := hheads new List.mem_cons_self
    have hnew : (new.map key).Nodup := (nodup_key_iff hsubjects).mpr hlegible
    obtain ⟨mid, hrun, hmid⟩ := applyHead_diff hold hnew hs
    obtain ⟨last, hrest, hlast⟩ := ih (s := { s with head := mid }) hnew hmid
      fun l hl => hheads l (List.mem_cons_of_mem _ hl)
    refine ⟨last, ?_, ?_⟩
    · rw [showHeads, run_bind_of_ok hrun]
      exact hrest
    · rwa [List.getLast_cons (List.cons_ne_nil _ _)]

theorem showHeads_append (old : List HeadEntry) (before rest : List (List HeadEntry)) :
    showHeads old (before ++ rest) = showHeads old before >>= fun _ =>
      showHeads ((old :: before).getLast (List.cons_ne_nil _ _)) rest := by
  induction before generalizing old with
  | nil => rfl
  | cons new before ih =>
    rw [List.cons_append, showHeads, showHeads, ih, List.getLast_cons (List.cons_ne_nil _ _)]
    exact (bind_assoc _ _ _).symm

/-- Two entries have the same key if they are about the same, or are links that differ in the place
of the joint, and not otherwise; links whose relations have no colon never do. Heads whose entries
are about different things are shown one after another, from one that holds the old entries in any
order, as long as none has two such links. The first that has is refused, for a repeated key. -/
theorem heads_shown_or_refused {heads : List (List HeadEntry)} (hold : (old.map subject).Nodup)
    (hlegible : Legible old) (hs : s.head.Perm old)
    (hheads : ∀ l ∈ heads, (l.map subject).Nodup) :
    (∀ a b : HeadEntry, a.key = b.key ↔ a.subject = b.subject ∨ a.Shifts b ∨ b.Shifts a)
      ∧ (∀ l, (∀ rel href, link rel href ∈ l → ':' ∉ rel.toList) → Legible l)
      ∧ ((∀ l ∈ heads, Legible l) → ∃ last,
        (showHeads old heads).run s = .ok () { s with head := last }
          ∧ last.Perm ((old :: heads).getLast (List.cons_ne_nil _ _)))
      ∧ ∀ before l rest, heads = before ++ l :: rest → (∀ m ∈ before, Legible m) → ¬Legible l →
        ∃ a ∈ l, ∃ b ∈ l, a.Shifts b ∧ ∃ s',
          (showHeads old heads).run s = .error (.duplicateHeadKey a.key) s' := by
  have hkeys : (old.map key).Nodup := (nodup_key_iff hold).mpr hlegible
  refine ⟨key_eq_iff, fun _ => legible_of_rels, fun h => ?_, ?_⟩
  · exact run_showHeads_of_legible hkeys hs fun l hl => ⟨hheads l hl, h l hl⟩
  · rintro before l rest rfl hbefore hl
    have hshown : ∀ m ∈ before, (m.map subject).Nodup ∧ Legible m := fun m hm =>
      ⟨hheads m (List.mem_append_left _ hm), hbefore m hm⟩
    obtain ⟨mid, hrun, hmid⟩ := run_showHeads_of_legible hkeys hs hshown
    have hlast : (((old :: before).getLast (List.cons_ne_nil _ _)).map key).Nodup := by
      rcases List.mem_cons.mp (List.getLast_mem (List.cons_ne_nil old before)) with h | h
      · rwa [h]
      · exact (nodup_key_iff (hshown _ h).1).mpr (hshown _ h).2
    have hsubjects := hheads l (List.mem_append_right _ List.mem_cons_self)
    obtain ⟨a, ha, b, hb, hshift, s', herror⟩ :=
      run_diff_of_not_legible (s := { s with head := mid }) hlast hsubjects hmid hl
    refine ⟨a, ha, b, hb, hshift, s', ?_⟩
    rw [showHeads_append, run_bind_of_ok hrun, showHeads]
    exact run_bind_of_error herror _

/-- A description is changed and an icon comes. A relation with a colon does no harm beside other
links; the two links of the third head are taken for one. -/
theorem heads_shown_or_refused_of_links :
    let first : List HeadEntry := [.metadata "description" "a", .base "/"]
    let second : List HeadEntry := [.link "icon" "/i", .link "a:b" "c", .metadata "description" "b"]
    let third : List HeadEntry := [.link "a" "b:c", .script "/s", .link "a:b" "c"]
    let s := fresh { scheme := "app", path := .segments [] }
    (([] : List HeadEntry).map subject).Nodup ∧ Legible [] ∧ s.head.Perm []
      ∧ (∀ l ∈ [first, second], (l.map subject).Nodup ∧ Legible l)
      ∧ (third.map subject).Nodup ∧ ¬Legible third
      ∧ (∃ last, (showHeads [] [first, second]).run s = .ok () { s with head := last }
        ∧ last.Perm second)
      ∧ ∃ s', (showHeads [] [first, second, third]).run s
        = .error (.duplicateHeadKey "link:a:b:c") s' := by
  intro first second third s
  have hfirst : (first.map subject).Nodup := by decide
  have hsecond : (second.map subject).Nodup := by decide
  have hthird : (third.map subject).Nodup := by decide
  have hlegible : ∀ l ∈ [first, second], (l.map subject).Nodup ∧ Legible l := by
    intro l hl
    rcases List.mem_pair.mp hl with rfl | rfl
    · exact ⟨hfirst, (nodup_key_iff hfirst).mp (by decide)⟩
    · exact ⟨hsecond, (nodup_key_iff hsecond).mp (by decide)⟩
  have hclash : ¬Legible third := fun h => absurd ((nodup_key_iff hthird).mpr h) (by decide)
  have hnone : (([] : List HeadEntry).map subject).Nodup := List.nodup_nil
  have hempty : Legible [] := nofun
  have hs : s.head.Perm [] := List.Perm.refl _
  have hsubjects : ∀ l ∈ [first, second, third], (l.map subject).Nodup := by
    simp only [List.forall_mem_cons]
    exact ⟨hfirst, hsecond, hthird, nofun⟩
  obtain ⟨-, -, hshown, -⟩ := heads_shown_or_refused hnone hempty hs fun l hl => (hlegible l hl).1
  obtain ⟨-, -, -, hrefused⟩ := heads_shown_or_refused hnone hempty hs hsubjects
  obtain ⟨a, ha, b, -, hshift, s', herror⟩ := hrefused [first, second] third [] rfl
    (fun l hl => (hlegible l hl).2) hclash
  have hkey : a.key = "link:a:b:c" := by
    obtain ⟨rel, middle, href, rfl, -⟩ := hshift
    simp only [third, List.mem_cons, List.not_mem_nil, or_false] at ha
    rcases ha with h | h | h
    · exact h ▸ rfl
    · cases h
    · exact h ▸ rfl
  exact ⟨hnone, hempty, hs, hlegible, hthird, hclash, hshown fun l hl => (hlegible l hl).2, s',
    hkey ▸ herror⟩

/-- Two links about different things have one key, and a head that is empty refuses them. -/
theorem links_share_key :
    let a : HeadEntry := .link "a" "b:c"
    let b : HeadEntry := .link "a:b" "c"
    let s := fresh { scheme := "app", path := .segments [] }
    a.subject ≠ b.subject ∧ a.key = b.key
      ∧ ((diff [] [a, b]).forM applyHead).run s
        = .error (.duplicateHeadKey "link:a:b:c") { s with head := [a] } := by
  intro a b s
  exact ⟨by decide, by decide, rfl⟩

end Surface

end ViewLoop
