import ViewLoop.Proofs.RoundTrip
import ViewLoop.Proofs.TrimmedCourse

/-!
# Repeated attributes

A view may give an element several plain attributes of one name. Alignment keeps them, a difference
compares the first of each key, and a surface holds all of them and changes the first. So what is
live is the tree as far as first attributes go, with one exception: removing an attribute uncovers
the next one of its key, if there is one (`Surface.Uncovers`), and then the key is live although the
tree no longer has it.

A batch of patches is taken whenever nothing was uncovered before, and first attributes are right
after it wherever it uncovers nothing, and only there (`Surface.agrees_unless_uncovered`). Once
something was uncovered, not even that the next batch is taken is certain
(`Surface.refuses_after_uncovering`).
-/

namespace ViewLoop

variable {P : Type}

/-! ### One difference -/

theorem Alignment.WellFormed.tidy_trimmed {s : IdSupply} {t : Node P} (h : WellFormed s t) :
    (t.trimmed []).Tidy := by
  refine ⟨?_, ?_, fun m hm => ?_, fun m hm a ha hi => ?_⟩
  · exact Node.ids_trimmed [] t ▸ h.assigned
  · exact Node.ids_trimmed [] t ▸ h.nodup
  all_goals
    rw [Node.subtrees_trimmed, List.mem_map] at hm
    obtain ⟨n, hn, rfl⟩ := hm
    rw [Node.attributes_trimmed] at *
  · exact Attribute.nodup_keys_trim [] n.id n.attributes
  · rw [Node.id_trimmed]
    exact h.identity n hn a (Attribute.trim_subset ha) hi

/-- The patches of a difference lead from a tree that is like the old one when both are trimmed to
one that is like the new one, apart from the keys that they remove; they remove no key twice. -/
theorem Difference.editing_patches [DecidableEq P] {old new : Node P} {u : Node Unit}
    (ho : (old.trimmed []).Tidy) (hn : (new.trimmed []).Tidy)
    (halike : (u.trimmed []).Alike (old.trimmed []).erased) :
    ∃ u', Editing u (patches old new) u'
      ∧ (u'.trimmed ((patches old new).flatMap Patch.removed)).Alike (new.trimmed []).erased
      ∧ ((patches old new).flatMap Patch.removed).Nodup := by
  have hold : old.ids.Nodup := Node.ids_trimmed [] old ▸ ho.nodup
  have hnew : new.ids.Nodup := Node.ids_trimmed [] new ▸ hn.nodup
  have htrimmed := patches_trimmed old new
  by_cases hroot : old.id = new.id ∧ old.SameShape new
  · have hid : (old.trimmed []).id = (new.trimmed []).id := by simpa using hroot.1
    have hshape : (old.trimmed []).SameShape (new.trimmed []) := by
      simpa [Node.SameShape] using hroot.2
    have hrev := revision_of_tidy ho hn hid
    obtain ⟨t, hcourse, ht⟩ := course_patches hrev hshape
    rw [htrimmed] at hcourse
    obtain ⟨u', hediting, hlast, hnodup⟩ := hcourse.editing hrev.oldMarks
      (fun p hp => spares_patches hold hnew hp) halike List.nodup_nil
    exact ⟨u', hediting, hlast.trans (ht.map _), hnodup⟩
  · -- the roots do not match: one replacement, which removes no key
    rw [patches_apart hroot]
    have hfits : (Patch.replaceChild none old new).Fits u := by
      have htrimmed : (Patch.replaceChild none (old.trimmed []) (new.trimmed [])).Fits
          (old.trimmed []) := Patch.fits_replaceRoot hn
      have hlive : (Patch.replaceChild none old new).trimmed.Fits (u.trimmed []) :=
        Patch.fits_alike halike.symm ((Patch.fits_map _ _ _).mpr htrimmed)
      exact Patch.fits_of_trimmed (fun _ hq => absurd hq List.not_mem_nil) hlive
    have hu : u.ids.Nodup := halike.ids_eq_of_trimmed ▸ ho.nodup
    refine ⟨new.erased, .cons hu hfits (.nil _), ?_, List.nodup_nil⟩
    rw [Node.erased, Node.erased, Node.map_trimmed]
    exact .refl _

namespace Surface

open Difference

variable {s s' : Surface} {off : List (NodeId × AttributeKey)} {t t' : Node P}
  {u u' : Node Unit}

/-! ### Reading first attributes -/

/-- The live tree, which is `u`, is like `t` when both are trimmed, apart from the keys in `off`. -/
structure Reads (s : Surface) (off : List (NodeId × AttributeKey)) (t : Node P)
    (u : Node Unit) : Prop where
  shows : s.Shows u
  alike : (u.trimmed off).Alike (t.trimmed []).erased

theorem withKey_perm {P : Type} {as bs : List (Attribute P)} (h : as.Perm bs)
    (hn : (as.map Attribute.key).Nodup) (k : AttributeKey) : withKey as k = withKey bs k := by
  refine Option.ext fun a => ?_
  have hbs := (h.map Attribute.key).nodup_iff.mp hn
  rw [withKey_eq_some_iff hn, withKey_eq_some_iff hbs, h.mem_iff]

/-- An element of the tree is live, with the same first attribute of every key that is not left
out. -/
theorem Reads.exists_live (h : s.Reads off t u) {n : Node P} (hn : n ∈ t.subtrees) :
    ∃ m ∈ u.subtrees, m.id = n.id ∧ m.isText = n.isText ∧ ∀ k, (n.id, k) ∉ off →
      withKey m.attributes k = (withKey n.attributes k).map Attribute.erased := by
  have hmem : (n.trimmed []).erased ∈ (t.trimmed []).erased.subtrees := by
    rw [Node.erased, Node.erased, Node.subtrees_map, Node.subtrees_trimmed]
    exact List.mem_map_of_mem (List.mem_map_of_mem hn)
  obtain ⟨y, hy, halike⟩ := h.alike.symm.exists_subtree hmem
  rw [Node.subtrees_trimmed, List.mem_map] at hy
  obtain ⟨m, hm, rfl⟩ := hy
  have hid : m.id = n.id := by simpa [Node.erased] using halike.id_eq.symm
  have hkind : m.isText = n.isText := by simpa [Node.erased] using halike.isText_eq.symm
  refine ⟨m, hm, hid, hkind, fun k hk => ?_⟩
  have hperm := halike.symm.attributes_perm
  rw [Node.erased, Node.attributes_map, Node.attributes_trimmed, Node.attributes_trimmed, hid]
    at hperm
  have heq := withKey_perm hperm (Attribute.nodup_keys_trim off n.id m.attributes) k
  rw [Attribute.withKey_trim, if_neg hk, withKey_map, Attribute.withKey_trim,
    if_neg List.not_mem_nil] at heq
  exact heq

/-- Nothing has to be left out if no element has a key that is. -/
theorem Reads.of_none_left (h : s.Reads off t u)
    (hnone : ∀ m ∈ u.subtrees, ∀ k, (m.id, k) ∈ off → k ∉ m.attributes.map Attribute.key) :
    s.Reads [] t u := by
  have hsame : u.trimmed [] = u.trimmed off := by
    refine Node.trimmed_congr fun m hm => ?_
    rw [Attribute.trim_nil]
    exact (Attribute.trim_eq_firsts fun a ha hoff =>
      hnone m hm a.key hoff (List.mem_map_of_mem ha)).symm
  exact ⟨h.shows, hsame ▸ h.alike⟩

/-! ### Uncovered attributes -/

/-- One of the patches removes the first of several attributes of a key. -/
def Uncovers (s : Surface) (ps : List (Patch P)) (x : NodeId) (k : AttributeKey) : Prop :=
  (∃ a, .removeAttribute x a ∈ ps ∧ a.key = k)
    ∧ ∃ as, s.arena.attributes x = .ok as ∧ 2 ≤ (as.map Attribute.key).count k

theorem mem_removed_of_uncovers {ps : List (Patch P)} {x : NodeId} {k : AttributeKey}
    (h : s.Uncovers ps x k) : (x, k) ∈ ps.flatMap Patch.removed := by
  obtain ⟨⟨a, ha, rfl⟩, -⟩ := h
  exact List.mem_flatMap.mpr ⟨_, ha, List.mem_singleton_self _⟩

/-- The patches of a difference are taken, and of the keys that they remove those are left that
they uncover. -/
theorem Reads.take [DecidableEq P] (h : s.Reads [] t u) (ho : (t.trimmed []).Tidy)
    (hn : (t'.trimmed []).Tidy) :
    ∃ s' u', ((patches t t').forM apply).run s = .ok () s'
      ∧ s'.Reads ((patches t t').flatMap Patch.removed) t' u'
      ∧ ∀ m ∈ u'.subtrees, ∀ k, (m.id, k) ∈ (patches t t').flatMap Patch.removed →
        (k ∈ m.attributes.map Attribute.key ↔ s.Uncovers (patches t t') m.id k) := by
  obtain ⟨u', hediting, halike, hnodup⟩ := editing_patches ho hn h.alike
  obtain ⟨s', hrun, hshows⟩ := h.shows.take hediting
  refine ⟨s', u', hrun, ⟨hshows, halike⟩, fun m hm k hk => ?_⟩
  have hold : t.ids.Nodup := Node.ids_trimmed [] t ▸ ho.nodup
  have hnew : t'.ids.Nodup := Node.ids_trimmed [] t' ▸ hn.nodup
  have hspares : ∀ p ∈ patches t t', p.Spares [(m.id, k)] := fun p hp =>
    (spares_patches hold hnew hp).mono fun q hq => List.mem_singleton.mp hq ▸ hk
  obtain ⟨n, hnu, hid, hcount⟩ := hediting.exists_before hspares hm
  rw [List.count_eq_one_of_mem hnodup hk] at hcount
  have hpos : k ∈ n.attributes.map Attribute.key :=
    List.count_pos_iff.mp (Nat.lt_of_lt_of_eq (Nat.succ_pos _) hcount.symm)
  have hlive := h.shows.attributes_eq hnu (Node.isText_eq_false_of_key_mem hpos)
  rw [hid] at hlive
  obtain ⟨p, hp, hkp⟩ := List.mem_flatMap.mp hk
  obtain ⟨a, rfl, hkey⟩ := Patch.mem_removed_iff.mp hkp
  -- the key is left iff it is counted after the removal, and once more before it
  have hleft : k ∈ m.attributes.map Attribute.key ↔ 2 ≤ n.keyCount k := by
    have hpositive : k ∈ m.attributes.map Attribute.key ↔ 0 < m.keyCount k :=
      List.count_pos_iff.symm
    rw [hpositive, hcount]
    omega
  rw [hleft]
  constructor
  · exact fun h2 => ⟨⟨a, hp, hkey⟩, n.attributes, hlive, h2⟩
  · rintro ⟨-, as, has, h2⟩
    rw [hlive, Except.ok.injEq] at has
    rwa [← has] at h2

/-! ### Sequences of trees -/

/-- Every element of the tree is live, and of every key its first attribute is that of the tree,
or neither has one. -/
def Agrees (s : Surface) (t : Node P) : Prop :=
  ∀ n ∈ t.subtrees, n.isText = false → ∃ as, s.arena.attributes n.id = .ok as
    ∧ ∀ k, withKey as k = (withKey n.attributes k).map Attribute.erased

theorem Reads.agrees (h : s.Reads [] t u) : s.Agrees t := by
  intro n hn hkind
  obtain ⟨m, hm, hid, hmkind, hkeys⟩ := h.exists_live hn
  refine ⟨m.attributes, ?_, fun k => hkeys k List.not_mem_nil⟩
  rw [← hid]
  exact h.shows.attributes_eq hm (hmkind.trans hkind)

/-- A tree was rendered, and others were shown one after another by the patches between them, none
of which uncovered an attribute. Each tree was aligned with the one before it. -/
inductive Displayed [DecidableEq P] (start : Url) : IdSupply → Node P → Surface → Prop
  | first {supply : IdSupply} {fresh : Node P} {handle : SurfaceHandle} {s : Surface}
      (keys : fresh.DistinctKeys)
      (taken : (render (Alignment.run none fresh supply).1 handle).run (Surface.fresh start)
        = .ok () s) :
      Displayed start (Alignment.run none fresh supply).2.supply
        (Alignment.run none fresh supply).1 s
  | next {supply : IdSupply} {t fresh : Node P} {s s' : Surface}
      (before : Displayed start supply t s) (keys : fresh.DistinctKeys)
      (covered : ∀ x k, ¬s.Uncovers (patches t (Alignment.run (some t) fresh supply).1) x k)
      (taken : ((patches t (Alignment.run (some t) fresh supply).1).forM apply).run s
        = .ok () s') :
      Displayed start (Alignment.run (some t) fresh supply).2.supply
        (Alignment.run (some t) fresh supply).1 s'

theorem reads_render (start : Url) {t : Node P} {supply : IdSupply}
    (ht : Alignment.WellFormed supply t) (handle : SurfaceHandle) :
    ∃ s, (render t handle).run (Surface.fresh start) = .ok () s ∧ s.Reads [] t t.erased := by
  have hdecides : (Surface.fresh start).Decides (render t handle) _ t.erased :=
    render_decides rfl rfl t handle
  obtain ⟨a, r, h, hrun, hshows⟩ := hdecides.accepts ⟨ht.assigned, ht.nodup⟩
  refine ⟨_, hrun, hshows, ?_⟩
  rw [Node.erased, Node.erased, Node.map_trimmed]

theorem Displayed.reads [DecidableEq P] {start : Url} {supply : IdSupply}
    (h : Displayed start supply t s) :
    Alignment.WellFormed supply t ∧ ∃ u, s.Reads [] t u := by
  induction h with
  | @first supply fresh handle s keys taken =>
    have hwell : Alignment.WellFormed _ (Alignment.run none fresh supply).1 :=
      Alignment.wellFormed_run nofun keys
    obtain ⟨s₁, hrun, hreads⟩ := reads_render start hwell handle
    rw [taken] at hrun
    obtain ⟨-, rfl⟩ := EStateM.Result.ok.inj hrun
    exact ⟨hwell, _, hreads⟩
  | @next supply t fresh s s' before keys covered taken ih =>
    obtain ⟨hold, u, hreads⟩ := ih
    have hwell := hold.next keys
    obtain ⟨s₁, u', hrun, hnext, huncovered⟩ :=
      hreads.take hold.tidy_trimmed hwell.tidy_trimmed
    rw [taken] at hrun
    obtain ⟨-, rfl⟩ := EStateM.Result.ok.inj hrun
    refine ⟨hwell, u', hnext.of_none_left fun m hm k hk hmem => ?_⟩
    exact covered m.id k ((huncovered m hm k hk).mp hmem)

/-- A first tree is rendered and agrees. After it, as long as no patch uncovered an attribute, every
patch of the next batch is taken, and afterwards a first attribute agrees unless the batch
uncovered an attribute of its key there: that attribute is live and the tree has none. -/
theorem agrees_unless_uncovered [DecidableEq P] (start : Url) :
    (∀ (supply : IdSupply) (fresh : Node P) (handle : SurfaceHandle), fresh.DistinctKeys →
      ∃ s, (render (Alignment.run none fresh supply).1 handle).run (Surface.fresh start) = .ok () s
        ∧ s.Agrees (Alignment.run none fresh supply).1)
    ∧ ∀ (supply : IdSupply) (t : Node P) (s : Surface), Displayed start supply t s →
      ∀ fresh : Node P, fresh.DistinctKeys →
        let t' := (Alignment.run (some t) fresh supply).1
        ∃ s', ((patches t t').forM apply).run s = .ok () s'
          ∧ ∀ n ∈ t'.subtrees, n.isText = false → ∃ as, s'.arena.attributes n.id = .ok as
            ∧ ∀ k, withKey as k = (withKey n.attributes k).map Attribute.erased
              ↔ ¬s.Uncovers (patches t t') n.id k := by
  refine ⟨fun supply fresh handle keys => ?_, fun supply t s h fresh keys => ?_⟩
  · have hwell : Alignment.WellFormed _ (Alignment.run none fresh supply).1 :=
      Alignment.wellFormed_run nofun keys
    obtain ⟨s, hrun, hreads⟩ := reads_render start hwell handle
    exact ⟨s, hrun, hreads.agrees⟩
  · obtain ⟨hold, u, hreads⟩ := h.reads
    have hwell := hold.next keys
    intro t'
    obtain ⟨s', u', hrun, hnext, huncovered⟩ :=
      hreads.take hold.tidy_trimmed hwell.tidy_trimmed
    refine ⟨s', hrun, fun n hn hkind => ?_⟩
    obtain ⟨m, hm, hid, hmkind, hkeys⟩ := hnext.exists_live hn
    have hlive := hnext.shows.attributes_eq hm (hmkind.trans hkind)
    rw [hid] at hlive
    refine ⟨m.attributes, hlive, fun k => ?_⟩
    by_cases hk : (n.id, k) ∈ (patches t t').flatMap Patch.removed
    · -- the new tree does not have the key, so agreeing is not having it either
      obtain ⟨o, n', stays, hid', hnone⟩ := stays_of_mem_removed hold.nodup hwell.nodup hk
      obtain rfl := Node.eq_of_id_eq hwell.nodup stays.mem_new hn hid'
      have hiff := huncovered m hm k (hid ▸ hk)
      rw [hid] at hiff
      rw [← hiff, ← withKey_eq_none_iff, hnone]
      rfl
    · exact iff_of_true (hkeys k hk) fun h => hk (mem_removed_of_uncovers h)

/-- The first of two classes changes, and a title goes. -/
theorem agrees_unless_uncovered_of_classes :
    let first : Node Nat := .element (.keyed "app") "div"
      [.plain "class" "a", .plain "title" "t", .plain "class" "b"] []
    let second : Node Nat := .element (.keyed "app") "div"
      [.plain "class" "c", .plain "class" "d"] []
    let start : Url := { scheme := "app", path := .segments [] }
    let r := Alignment.run none first {}
    let r' := Alignment.run (some r.1) second r.2.supply
    (first.DistinctKeys ∧ second.DistinctKeys) ∧ ∃ s s', Displayed start r.2.supply r.1 s
      ∧ s.Agrees r.1 ∧ ((patches r.1 r'.1).forM apply).run s = .ok () s'
      ∧ ∃ as, s'.arena.attributes (.keyed "app") = .ok as
        ∧ ∀ k, withKey as k = (withKey r'.1.attributes k).map Attribute.erased
          ↔ ¬s.Uncovers (patches r.1 r'.1) (.keyed "app") k := by
  intro first second start r r'
  have hfirst : first.DistinctKeys := by decide
  have hsecond : second.DistinctKeys := by decide
  have h := agrees_unless_uncovered (P := Nat) start
  obtain ⟨s, hrun, hagrees⟩ := h.1 {} first .first hfirst
  have hdisplayed : Displayed start r.2.supply r.1 s := .first hfirst hrun
  obtain ⟨s', hnext, hkeys⟩ := h.2 _ _ s hdisplayed second hsecond
  exact ⟨⟨hfirst, hsecond⟩, s, s', hdisplayed, hagrees, hnext,
    hkeys r'.1 (Node.self_mem_subtrees _) rfl⟩

/-- Two classes of an element are removed, and another one is added later. The removal leaves the
second class live, and the addition is refused. -/
theorem refuses_after_uncovering :
    let first : Node Nat := .element (.keyed "app") "div"
      [.plain "class" "a", .plain "class" "b"] []
    let second : Node Nat := .element (.keyed "app") "div" [] []
    let third : Node Nat := .element (.keyed "app") "div" [.plain "class" "c"] []
    let start : Url := { scheme := "app", path := .segments [] }
    let r := Alignment.run none first {}
    let r' := Alignment.run (some r.1) second r.2.supply
    let r'' := Alignment.run (some r'.1) third r'.2.supply
    (first.DistinctKeys ∧ second.DistinctKeys ∧ third.DistinctKeys)
      ∧ ∃ s s', (render r.1).run (Surface.fresh start) = .ok () s
        ∧ ((patches r.1 r'.1).forM apply).run s = .ok () s'
        ∧ s'.arena.attributes (.keyed "app") = .ok [.plain "class" "b"]
        ∧ withKey r'.1.attributes (.plain "class") = none
        ∧ ((patches r'.1 r''.1).forM apply).run s'
          = .error (.duplicateAttribute (.keyed "app") "class") s' := by
  intro first second third start r r' r''
  exact ⟨by decide, _, _, rfl, rfl, rfl, rfl, rfl⟩

end Surface

end ViewLoop
