/-
# The address of a published dashboard

A published dashboard is shared by its slug: the public routes look it up among the rows of all
owners and answer only if what they find is published.

**Two dashboards may have one slug.**  The service looks for a conflict among the rows of the owner
alone, publishing takes the slug of the title without looking at all, and an update may publish a
dashboard that has no slug, or give it a description with which it is not read any more.

* `published_reachable`: in a run whose calls give no slug that another dashboard of whatever owner
  has (`Calm`), a published dashboard is what the lookup by its slug finds.
-/
import Apowerb.Bi.Dashboards

namespace Apowerb.Bi.Spec

open Runs

/-! ## 1. The lookup and the condition -/

/-- `get_public_dashboard`, up to the rights of the reader: what is found by the slug, if it is
published. -/
def publicLookup (env : Env) (order : Order) (rows : List Row) (slug : String) : Option Dashboard :=
  (getBySlug env order rows none slug).filter (·.status = .published)

/-- What the lookup is to find for a row. -/
def shared (row : Row) : Dashboard := { row.config with createdBy := some row.owner }

/-- No dashboard but that of an id has the slug. -/
def FreeSlug (rows : List Row) (id slug : String) : Prop :=
  ∀ row ∈ rows, row.deleted = false → row.config.slug = some slug → row.id = id

/-- A modification gives no slug that is taken, and publishes nothing that has none or that is
not read any more. -/
def CalmEdit (env : Env) (rows : List Row) (d : Dashboard) : Edit → Prop
  | .update req =>
    (∀ s ∈ req.slug, FreeSlug rows d.id s) ∧
      (req.status = some .published → d.slug.isSome ∨ req.slug.isSome) ∧
      ∀ t ∈ req.description, t.length ≤ 500
  | .publish _ => given d.slug = false → FreeSlug rows d.id (slugOf env d.title)
  | _ => True

/-- The same of a call. -/
def Calm (env : Env) (rows : List Row) : Call → Prop
  | .create _ _ id req => ∀ s ∈ req.slug, FreeSlug rows id s
  | .modify _ owner id e => ∀ d ∈ get env rows (some owner) id, CalmEdit env rows d e
  | .delete _ _ => True

instance (rows : List Row) (id slug : String) : Decidable (FreeSlug rows id slug) :=
  inferInstanceAs (Decidable (∀ row ∈ rows, _ → _ → _))

instance (env : Env) (rows : List Row) (d : Dashboard) : ∀ e, Decidable (CalmEdit env rows d e)
  | .update req =>
    inferInstanceAs (Decidable ((∀ s ∈ req.slug, FreeSlug rows d.id s) ∧
      (req.status = some .published → d.slug.isSome ∨ req.slug.isSome) ∧
      ∀ t ∈ req.description, t.length ≤ 500))
  | .publish _ =>
    inferInstanceAs (Decidable (given d.slug = false → FreeSlug rows d.id (slugOf env d.title)))
  | .patch _ | .addComponent _ _ _ | .removeComponent _ | .moveComponent _ _ | .updateComponent _ _
  | .unpublish | .linkAgent _ | .replaceSource _ _ | .upgrade _ => .isTrue trivial

instance (env : Env) (rows : List Row) : ∀ c, Decidable (Calm env rows c)
  | .create _ _ id req => inferInstanceAs (Decidable (∀ s ∈ req.slug, FreeSlug rows id s))
  | .modify _ owner id e =>
    inferInstanceAs (Decidable (∀ d ∈ get env rows (some owner) id, CalmEdit env rows d e))
  | .delete _ _ => .isTrue trivial

/-! ## 2. The invariant -/

/-- What holds of the rows of a calm run: ids and configs agree, no two live dashboards have one
slug, every live dashboard can be read, and a published one has a slug. -/
structure Inv (rows : List Row) : Prop where
  ids : (rows.map (·.id)).Nodup
  own : ∀ row ∈ rows, row.config.id = row.id
  unique : ∀ row ∈ rows, row.deleted = false → ∀ s, row.config.slug = some s →
    FreeSlug rows row.id s
  slugged : ∀ row ∈ rows, row.deleted = false → row.config.status = .published →
    row.config.slug.isSome = true
  fits : ∀ row ∈ rows, row.deleted = false → row.config.fits = true

theorem replaceRow_ids (rows : List Row) (new : Row) :
    (replaceRow rows new).map (·.id) = rows.map (·.id) := by
  rw [replaceRow, List.map_map]
  apply List.map_congr_left
  intro row _
  simp only [Function.comp_apply]
  split <;> simp [*]

/-- A row after a save is one of those of another id that were there, or a live row with the
dashboard. -/
theorem Saved.mem_of_ne {rows rows' : List Row} {d : Dashboard} (h : Saved rows d rows')
    {row : Row} (hrow : row ∈ rows') :
    rows' = rows ∨ (row ∈ rows ∧ row.id ≠ d.id) ∨
      (row.config = d ∧ row.id = d.id ∧ row.deleted = false) := by
  cases h with
  | same => exact .inl rfl
  | replaced _ _ hid hconfig _ hlive =>
    obtain ⟨other, hother, rfl⟩ := List.mem_map.mp hrow
    split
    · exact .inr (.inr ⟨hconfig, hid, hlive⟩)
    · next hne => exact .inr (.inl ⟨hother, hid ▸ hne⟩)
  | added hnone hid hconfig hlive =>
    rcases List.mem_append.mp hrow with hrow | hrow
    · refine .inr (.inl ⟨hrow, fun heq => ?_⟩)
      have := List.find?_eq_none.mp hnone row hrow
      simp [heq] at this
    · rw [List.mem_singleton.mp hrow]
      exact .inr (.inr ⟨hconfig, hid, hlive⟩)

theorem Saved.ids {rows rows' : List Row} {d : Dashboard} (h : Saved rows d rows')
    (hids : (rows.map (·.id)).Nodup) : (rows'.map (·.id)).Nodup := by
  cases h with
  | same => exact hids
  | replaced _ _ _ _ _ _ => rwa [replaceRow_ids]
  | added hnone hid _ _ =>
    rw [List.map_append, List.map_singleton]
    refine List.nodup_append.mpr ⟨hids, List.nodup_singleton _, ?_⟩
    rintro _ hold _ hnew rfl
    obtain ⟨row, hrow, rfl⟩ := List.mem_map.mp hold
    have := List.find?_eq_none.mp hnone row hrow
    simp [List.mem_singleton.mp hnew, hid] at this

/-- A save of a dashboard whose slug is free, which can be read, and is published only with a
slug. -/
theorem Inv.saved {rows rows' : List Row} {d : Dashboard} (h : Inv rows)
    (hfree : ∀ s, d.slug = some s → FreeSlug rows d.id s)
    (hslug : d.status = .published → d.slug.isSome = true) (hfits : d.fits = true)
    (hsaved : Saved rows d rows') : Inv rows' := by
  have hcases {row : Row} (hrow : row ∈ rows') := hsaved.mem_of_ne hrow
  refine ⟨hsaved.ids h.ids, ?_, ?_, ?_, ?_⟩
  · intro row hrow
    rcases hcases hrow with rfl | ⟨hold, -⟩ | ⟨hconfig, hid, -⟩
    · exact h.own row hrow
    · exact h.own row hold
    · rw [hconfig, hid]
  · intro row hrow hlive s hs other hother hother' hs'
    rcases hcases hrow with rfl | ⟨hold, hne⟩ | ⟨hconfig, hid, -⟩
    · exact h.unique row hrow hlive s hs other hother hother' hs'
    · rcases hcases hother with rfl | ⟨hold', -⟩ | ⟨hconfig', -, -⟩
      · exact h.unique row hrow hlive s hs other hother hother' hs'
      · exact h.unique row hold hlive s hs other hold' hother' hs'
      · exact absurd (hfree s (hconfig' ▸ hs') row hold hlive hs) hne
    · rcases hcases hother with rfl | ⟨hold', hne'⟩ | ⟨-, hid', -⟩
      · exact h.unique row hrow hlive s hs other hother hother' hs'
      · exact absurd (hfree s (hconfig ▸ hs) other hold' hother' hs') hne'
      · rw [hid, hid']
  · intro row hrow hlive hstatus
    rcases hcases hrow with rfl | ⟨hold, -⟩ | ⟨hconfig, -, -⟩
    · exact h.slugged row hrow hlive hstatus
    · exact h.slugged row hold hlive hstatus
    · rw [hconfig] at hstatus ⊢
      exact hslug hstatus
  · intro row hrow hlive
    rcases hcases hrow with rfl | ⟨hold, -⟩ | ⟨hconfig, -, -⟩
    · exact h.fits row hrow hlive
    · exact h.fits row hold hlive
    · rwa [hconfig]

theorem Inv.nil : Inv [] where
  ids := List.nodup_nil
  own _ h := nomatch h
  unique _ h := nomatch h
  slugged _ h := nomatch h
  fits _ h := nomatch h

/-- What is read is what a live row holds, with its owner. -/
theorem Inv.read {env : Env} {rows : List Row} (h : Inv rows) {owner : Option String} {id : String}
    {d : Dashboard} (hget : get env rows owner id = some d) :
    ∃ row ∈ rows, row.deleted = false ∧ row.id = d.id ∧ d = shared row := by
  obtain ⟨row, hfind, hscope, -, hd⟩ := get_eq_some hget
  have hrow := List.mem_of_find?_eq_some hfind
  unfold inScope at hscope
  rw [Bool.and_eq_true, Bool.not_eq_true'] at hscope
  exact ⟨row, hrow, hscope.1, by rw [hd, ← h.own row hrow], hd⟩

/-- A calm modification gives no slug that is taken. -/
theorem Inv.free {env : Env} {rows : List Row} (h : Inv rows) {row : Row} (hrow : row ∈ rows)
    (hlive : row.deleted = false) (hid : row.id = (shared row).id) {e : Edit}
    (hcalm : CalmEdit env rows (shared row) e) {s : String}
    (hs : e.newSlug env (shared row) = some s) : FreeSlug rows (shared row).id s := by
  have hkept (hs : row.config.slug = some s) : FreeSlug rows (shared row).id s :=
    hid ▸ h.unique row hrow hlive s hs
  cases e with
  | update req =>
    simp only [Edit.newSlug] at hs
    split at hs
    · exact hcalm.1 s hs
    · exact hkept hs
  | publish visibility =>
    simp only [Edit.newSlug, publishedSlug, Option.some.injEq] at hs
    cases hgiven : given (shared row).slug with
    | true =>
      rw [if_pos hgiven] at hs
      cases hslug : row.config.slug with
      | none => simp [shared, hslug, given] at hgiven
      | some t => exact hkept (hslug.trans (by simpa [shared, hslug] using hs))
    | false =>
      rw [if_neg (by simp [hgiven])] at hs
      exact hs ▸ hcalm hgiven
  | patch _ | addComponent _ _ _ | removeComponent _ | moveComponent _ _ | updateComponent _ _
  | unpublish | linkAgent _ | replaceSource _ _ | upgrade _ => exact hkept hs

/-- A calm modification publishes nothing that has no slug. -/
theorem Inv.newSlug {env : Env} {rows : List Row} (h : Inv rows) {row : Row} (hrow : row ∈ rows)
    (hlive : row.deleted = false) {e : Edit} (hcalm : CalmEdit env rows (shared row) e)
    (hstatus : e.newStatus (shared row) = .published) :
    (e.newSlug env (shared row)).isSome = true := by
  have hkept (hstatus : row.config.status = .published) := h.slugged row hrow hlive hstatus
  cases e with
  | update req =>
    simp only [Edit.newSlug]
    split
    · next hgiven => exact hgiven
    · next hnone =>
      cases hreq : req.status with
      | none => exact hkept (by simpa [Edit.newStatus, hreq, shared] using hstatus)
      | some new =>
        have hnew : new = .published := by simpa [Edit.newStatus, hreq] using hstatus
        rcases hcalm.2.1 (hnew ▸ hreq) with hslug | hslug
        · exact hslug
        · exact absurd hslug hnone
  | publish visibility => rfl
  | unpublish => cases hstatus
  | patch _ | addComponent _ _ _ | removeComponent _ | moveComponent _ _ | updateComponent _ _
  | linkAgent _ | replaceSource _ _ | upgrade _ => exact hkept hstatus

/-- Rows of which some are deleted. -/
theorem Inv.deleted {rows : List Row} (h : Inv rows) (id : String) :
    Inv (rows.map fun row => if row.id = id then { row with deleted := true } else row) := by
  have hold {row : Row}
      (hrow : row ∈ rows.map fun row => if row.id = id then { row with deleted := true } else row) :
      ∃ other ∈ rows, other.id = row.id ∧ other.config = row.config ∧
        (row.deleted = false → other.deleted = false) := by
    obtain ⟨other, hother, rfl⟩ := List.mem_map.mp hrow
    refine ⟨other, hother, ?_⟩
    split <;> simp
  refine ⟨?_, ?_, ?_, ?_, ?_⟩
  · rw [List.map_map]
    have hids : ((fun row : Row => row.id) ∘ fun row =>
        if row.id = id then { row with deleted := true } else row) = (·.id) := by
      funext row
      simp only [Function.comp_apply]
      split <;> rfl
    rw [hids]
    exact h.ids
  · intro row hrow
    obtain ⟨other, hother, hid, hconfig, -⟩ := hold hrow
    rw [← hid, ← hconfig]
    exact h.own other hother
  · intro row hrow hlive s hs row' hrow' hlive' hs'
    obtain ⟨other, hother, hid, hconfig, hdel⟩ := hold hrow
    obtain ⟨other', hother', hid', hconfig', hdel'⟩ := hold hrow'
    rw [← hid, ← hid']
    exact h.unique other hother (hdel hlive) s (hconfig ▸ hs) other' hother' (hdel' hlive')
      (hconfig' ▸ hs')
  · intro row hrow hlive hstatus
    obtain ⟨other, hother, -, hconfig, hdel⟩ := hold hrow
    rw [← hconfig] at hstatus ⊢
    exact h.slugged other hother (hdel hlive) hstatus
  · intro row hrow hlive
    obtain ⟨other, hother, -, hconfig, hdel⟩ := hold hrow
    rw [← hconfig]
    exact h.fits other hother (hdel hlive)

theorem Inv.step {env : Env} {rows rows' : List Row} {c : Call} (h : Inv rows)
    (hcalm : Calm env rows c) (hstep : Spec.step env rows c = some rows') : Inv rows' := by
  rcases step_cases hstep with rfl | ⟨order, owner, id, req, rfl, -, -, hsaved⟩ |
    ⟨order, owner, id, e, d, new, rfl, hget, -, hrun, hsaved⟩ | ⟨owner, id, rfl, rfl⟩
  · exact h
  · have hdraft : (req.dashboard id owner).status = .draft := rfl
    refine h.saved (fun s hs => hcalm s hs) (fun hs => ?_) ?_ hsaved
    · rw [hdraft] at hs
      cases hs
    rw [Dashboard.fits_iff]
    refine ⟨req.titleBounds, req.descriptionBound, req.columnsBounds, Nat.le_refl 1, ?_⟩
    simp only [CreateRequest.dashboard]
    split <;> decide
  · obtain ⟨row, hrow, hlive, hid, rfl⟩ := h.read hget
    have hcalm := hcalm _ hget
    have hfits : (shared row).fits = true := h.fits row hrow hlive
    have haddr := Edit.run_addressed hfits hrun
    refine h.saved ?_ ?_ (haddr.fits ?_) hsaved
    · rw [haddr.slug, haddr.id]
      exact fun s hs => h.free hrow hlive hid hcalm hs
    · rw [haddr.slug, haddr.status]
      exact fun hs => h.newSlug hrow hlive hcalm hs
    · cases e with
      | update req => exact hcalm.2.2
      | _ => rintro _ ⟨⟩
  · exact h.deleted id

/-! ## 3. The lookup -/

/-- The only element of a list is what any order puts first. -/
theorem Order.head_eq (order : Order) {rows : List Row} {row : Row} (hrow : row ∈ rows)
    (honly : ∀ other ∈ rows, other = row) : (order.1 rows).head? = some row := by
  have hperm := order.2 rows
  cases hlist : order.1 rows with
  | nil => exact absurd (hperm.mem_iff.mpr hrow) (by rw [hlist]; exact List.not_mem_nil)
  | cons first rest =>
    have hfirst : first ∈ order.1 rows := by rw [hlist]; exact List.mem_cons_self
    rw [List.head?_cons, honly first (hperm.mem_iff.mp hfirst)]

/-- The row with a slug is what any lookup by it finds. -/
theorem Inv.lookup {env : Env} {rows : List Row} (h : Inv rows) {row : Row} (hrow : row ∈ rows)
    (hlive : row.deleted = false) {s : String} (hs : row.config.slug = some s) (order : Order) :
    getBySlug env order rows none s = some (shared row) := by
  have hmem : row ∈ withSlug (rows.filter (inScope env none)) s := by
    simp [withSlug, inScope, hrow, hlive, hs]
  have honly : ∀ other ∈ withSlug (rows.filter (inScope env none)) s, other = row := by
    intro other hother
    simp only [withSlug, inScope, Option.all_none, Bool.and_true, List.mem_filter,
      decide_eq_true_eq, Bool.not_eq_true'] at hother
    obtain ⟨⟨hother, hlive'⟩, hs'⟩ := hother
    exact List.inj_on_of_nodup_map h.ids hother hrow
      (h.unique row hrow hlive s hs other hother hlive' hs')
  have hfits := h.fits row hrow hlive
  simp [getBySlug, order.head_eq hmem honly, fromRow, hfits, shared]

/-- **A published dashboard is what the lookup by its slug finds**, in every state of a run whose
calls give no slug that another dashboard has, and publish none without a slug. -/
theorem published_reachable (env : Env) (rows : List Row)
    (h : Reach (step env) (Calm env) [] rows) :
    ∀ row ∈ rows, row.deleted = false → row.config.status = .published →
      ∃ s, row.config.slug = some s ∧
        ∀ order, publicLookup env order rows s = some (shared row) := by
  intro row hrow hlive hstatus
  have hinv : Inv rows := h.invariant .nil fun _ _ _ hinv hcalm hs => hinv.step hcalm hs
  obtain ⟨s, hs⟩ := Option.isSome_iff_exists.mp (hinv.slugged row hrow hlive hstatus)
  refine ⟨s, hs, fun order => ?_⟩
  have hpublished : (shared row).status = .published := hstatus
  simp [publicLookup, hinv.lookup hrow hlive hs order, hpublished]

/-! ## 4. Two owners -/

/-- A dashboard is created by each of two owners and published under its title. -/
def publishedCalls (title title' : String) (h : 1 ≤ title.length ∧ title.length ≤ 120)
    (h' : 1 ≤ title'.length ∧ title'.length ≤ 120) : List Call :=
  [.create asStored "ada@lab.org" "d1" (createRequest title none [] h),
    .create asStored "bob@shop.com" "d2" (createRequest title' none [] h'),
    .modify asStored "ada@lab.org" "d1" (.publish .«public»),
    .modify asStored "bob@shop.com" "d2" (.publish .«public»)]

/-- Of two published dashboards with one title, the lookup by their slug finds one. -/
theorem published_hidden : ¬ ∀ rows, Reach (step plainEnv) anyStep [] rows →
    ∀ row ∈ rows, row.deleted = false → row.config.status = .published →
      ∃ s, row.config.slug = some s ∧
        ∀ order, publicLookup plainEnv order rows s = some (shared row) := by
  intro h
  have hrun : (replay (step plainEnv) anyStep []
      (publishedCalls "sales" "sales" (by decide) (by decide))).map (fun rows =>
        rows.map fun row => (row.config.id, row.deleted, row.config.status,
          (row.config.slug.bind (publicLookup plainEnv asStored rows)).map (·.id))) =
      some [("d1", false, .published, some "d1"), ("d2", false, .published, some "d1")] := by
    decide +kernel
  obtain ⟨rows, hrows, hshape⟩ := Option.map_eq_some_iff.mp hrun
  have hsecond : ("d2", false, Status.published, some "d1") ∈ rows.map fun row =>
      (row.config.id, row.deleted, row.config.status,
        (row.config.slug.bind (publicLookup plainEnv asStored rows)).map (·.id)) := by
    rw [hshape]
    simp
  obtain ⟨row, hrow, hfields⟩ := List.mem_map.mp hsecond
  simp only [Prod.mk.injEq] at hfields
  obtain ⟨hid, hlive, hstatus, hfound⟩ := hfields
  obtain ⟨s, hs, hlookup⟩ := h rows (.of_replay _ hrows) row hrow hlive hstatus
  rw [hs, Option.bind_some, hlookup asStored, Option.map_some, Option.some.injEq] at hfound
  have hown : row.config.id = "d1" := hfound
  rw [hid] at hown
  exact absurd hown (by decide)

/-- Under two titles both are found. -/
theorem published_reachable_both : ∃ rows, Reach (step plainEnv) (Calm plainEnv) [] rows ∧
    rows.map (fun row => row.config.slug) = [some "sales", some "stock"] ∧
    ∀ row ∈ rows, ∃ s, row.config.slug = some s ∧
      ∀ order, publicLookup plainEnv order rows s = some (shared row) := by
  have hrun : (replay (step plainEnv) (Calm plainEnv) []
      (publishedCalls "sales" "stock" (by decide) (by decide))).map (fun rows =>
        (rows.map (fun row => row.config.slug),
          rows.all fun row => !row.deleted && decide (row.config.status = .published))) =
      some ([some "sales", some "stock"], true) := by
    decide +kernel
  obtain ⟨rows, hrows, hshape⟩ := Option.map_eq_some_iff.mp hrun
  obtain ⟨hslugs, hall⟩ := Prod.mk.inj hshape
  have hreach := Reach.of_replay _ hrows
  refine ⟨rows, hreach, hslugs, fun row hrow => ?_⟩
  have hrow' := List.all_eq_true.mp hall row hrow
  rw [Bool.and_eq_true, Bool.not_eq_true'] at hrow'
  exact published_reachable plainEnv rows hreach row hrow hrow'.1 (of_decide_eq_true hrow'.2)

end Apowerb.Bi.Spec
