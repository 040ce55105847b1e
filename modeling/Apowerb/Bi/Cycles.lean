/-
# The search for cycles among sources

`find_cycle_members` (`bi/spec/validate.py`) goes through the sources depth first and reports the
part of its stack above a source that it meets again.  What that finds is settled here, for every
list of sources, whatever they refer to.

* **Every cycle is met.**  A source is finished after those it depends on, but for the ones it is
  reported with (`Ordered`), so that those left out have an order among themselves (`rank_lt`).
* **Not every member is.**  A source is reported where the search, at the moment it enters it, still
  has a way back to it or to its stack that leads through no finished source (`LeadsBack`,
  `mem_visit_iff`).  A source whose ways back all lead through finished ones is on a cycle and is
  left out: `exact_iff` says that this is the only reason, `not_exact_triangles` that it happens.
-/
import Apowerb.Bi.Validate
import Mathlib.Data.List.Perm.Subperm

namespace Apowerb.Bi.Cycles

open Spec Relation

variable {sources : List SourceSpec}

/-! ## 1. Cycles -/

/-- `a` reads from `b`, and both are there. -/
def DependsOn (sources : List SourceSpec) (a b : String) : Prop :=
  ∃ s, byName sources a = some s ∧ b ∈ sourceDependencies s ∧ known sources b

def OnCycle (sources : List SourceSpec) (name : String) : Prop :=
  TransGen (DependsOn sources) name name

theorem DependsOn.known_left {a b : String} (h : DependsOn sources a b) : known sources a := by
  obtain ⟨s, hs, -⟩ := h
  rw [known, hs]
  rfl

theorem OnCycle.known {name : String} (h : OnCycle sources name) : known sources name := by
  obtain ⟨b, hb, -⟩ := TransGen.head'_iff.mp h
  exact hb.known_left

/-- A source that is there has its name in the list. -/
theorem mem_names {name : String} (h : known sources name) : name ∈ sources.map (·.name) := by
  obtain ⟨s, hs⟩ := Option.isSome_iff_exists.mp h
  have hmem := List.mem_of_find?_eq_some hs
  have hname := List.find?_some hs
  exact List.mem_map.mpr ⟨s, List.mem_reverse.mp hmem, by simpa using hname⟩

/-! ## 2. The part of a stack from a source on -/

/-- What the search reports where it meets `e` on its stack. -/
def above (stack : List String) (e : String) : List String := stack.drop (stack.idxOf e)

theorem above_concat {stack : List String} {e x : String} (h : e ∈ stack) :
    above (stack ++ [x]) e = above stack e ++ [x] := by
  have hlt := List.idxOf_lt_length_of_mem h
  rw [above, above, List.idxOf_append_of_mem h, List.drop_append_of_le_length hlt.le]

theorem mem_above_self {stack : List String} {e : String} (h : e ∈ stack) : e ∈ above stack e := by
  have hlt := List.idxOf_lt_length_of_mem h
  rw [above, List.drop_eq_getElem_cons hlt, List.getElem_idxOf]
  exact List.mem_cons_self

theorem mem_of_mem_above {stack : List String} {e z : String} (h : z ∈ above stack e) :
    z ∈ stack := List.mem_of_mem_drop h

/-- The source on top is in every part. -/
theorem top_mem_above {stack : List String} {e x : String} (h : e ∈ stack ++ [x]) :
    x ∈ above (stack ++ [x]) e := by
  by_cases he : e ∈ stack
  · rw [above_concat he]
    exact List.mem_append_right _ List.mem_cons_self
  · have hex : e = x := by simpa [he] using h
    subst hex
    exact mem_above_self h

/-- The part from a source on that is not the top says what it said before. -/
theorem mem_above_concat {stack : List String} {e x z : String} (h : z ∈ above stack e)
    (he : e ∈ stack) : z ∈ above (stack ++ [x]) e := by
  rw [above_concat he]
  exact List.mem_append_left _ h

/-- Of the sources under the top, the part from the top on has none. -/
theorem mem_above_of_ne {stack : List String} {e x z : String} (hx : x ∉ stack) (hz : z ≠ x)
    (he : e ∈ stack ++ [x]) (h : z ∈ above (stack ++ [x]) e) : e ∈ stack ∧ z ∈ above stack e := by
  by_cases hes : e ∈ stack
  · rw [above_concat hes] at h
    exact ⟨hes, by simpa [hz] using h⟩
  · have hex : e = x := by simpa [hes] using he
    subst hex
    rw [above, List.idxOf_append_of_notMem hx] at h
    simp [hz] at h

/-! ## 3. What a call of the search leaves -/

/-- Newest first, a finished source comes after those it depends on, or is reported with them. -/
def Ordered (sources : List SourceSpec) (members : List String) : List String → Prop
  | [] => True
  | d :: done =>
    (∀ e, DependsOn sources d e → e ∈ done ∨ d ∈ members ∧ e ∈ members) ∧
      Ordered sources members done

theorem Ordered.mono {members members' : List String} (h : ∀ x ∈ members, x ∈ members') :
    ∀ {done : List String}, Ordered sources members done → Ordered sources members' done
  | [], _ => trivial
  | _ :: _, ho =>
    ⟨fun e he => (ho.1 e he).imp_right fun hm => ⟨h _ hm.1, h _ hm.2⟩, Ordered.mono h ho.2⟩

/-- What the search relies on when it looks at a source with a stack above it. -/
structure Ready (sources : List SourceSpec) (fuel : Nat) (stack : List String) (v : Visits) :
    Prop where
  fuel : fuel + stack.length = sources.length + 1
  nodup : stack.Nodup
  known : ∀ x ∈ stack, known sources x
  visiting : ∀ x, x ∈ v.visiting ↔ x ∈ stack
  unfinished : ∀ x ∈ stack, x ∉ v.done
  members : ∀ x ∈ v.members, x ∈ v.done ∨ x ∈ stack

/-- What holds between the states before and after. -/
structure Extends (sources : List SourceSpec) (stack : List String) (v v' : Visits) : Prop where
  visiting : v'.visiting = v.visiting
  done : ∀ x ∈ v.done, x ∈ v'.done
  members : ∀ x ∈ v.members, x ∈ v'.members
  unfinished : ∀ x ∈ stack, x ∉ v.done → x ∉ v'.done
  /-- only what is finished now and the stack is reported -/
  within : ∀ x ∈ v'.members, x ∈ v.members ∨ (x ∈ v'.done ∧ x ∉ v.done) ∨ x ∈ stack
  /-- a source finished now has all it depends on finished or on the stack, where it is reported -/
  closed : ∀ w ∈ v'.done, w ∉ v.done → ∀ e, DependsOn sources w e →
    (e ∈ v'.done ∨ e ∈ stack) ∧ (e ∈ stack → ∀ z ∈ above stack e, z ∈ v'.members)
  ordered : Ordered sources v.members v.done → Ordered sources v'.members v'.done

/-- The search has looked at `name`. -/
def Met (stack : List String) (v : Visits) (name : String) : Prop :=
  name ∈ v.done ∨ name ∈ stack ∧ ∀ z ∈ above stack name, z ∈ v.members

theorem Extends.refl (stack : List String) (v : Visits) : Extends sources stack v v where
  visiting := rfl
  done _ h := h
  members _ h := h
  unfinished _ _ h := h
  within _ h := .inl h
  closed _ h hn := absurd h hn
  ordered h := h

theorem Extends.trans {stack : List String} {v v' v'' : Visits} (h : Extends sources stack v v')
    (h' : Extends sources stack v' v'') : Extends sources stack v v'' where
  visiting := h'.visiting.trans h.visiting
  done x hx := h'.done x (h.done x hx)
  members x hx := h'.members x (h.members x hx)
  unfinished x hx hn := h'.unfinished x hx (h.unfinished x hx hn)
  within x hx := by
    rcases h'.within x hx with hx | ⟨hx, hn⟩ | hx
    · rcases h.within x hx with hx | ⟨hx, hn⟩ | hx
      · exact .inl hx
      · exact .inr (.inl ⟨h'.done x hx, hn⟩)
      · exact .inr (.inr hx)
    · exact .inr (.inl ⟨hx, fun hd => hn (h.done x hd)⟩)
    · exact .inr (.inr hx)
  closed w hw hn e he := by
    by_cases hw' : w ∈ v'.done
    · obtain ⟨hd, hm⟩ := h.closed w hw' hn e he
      exact ⟨hd.imp_left (h'.done e), fun hs z hz => h'.members z (hm hs z hz)⟩
    · exact h'.closed w hw hw' e he
  ordered ho := h'.ordered (h.ordered ho)

theorem Met.extends {stack : List String} {v v' : Visits} {name : String} (h : Met stack v name)
    (hv : Extends sources stack v v') : Met stack v' name :=
  h.imp (hv.done name) fun hm => ⟨hm.1, fun z hz => hv.members z (hm.2 z hz)⟩

theorem Ready.extends {fuel : Nat} {stack : List String} {v v' : Visits}
    (h : Ready sources fuel stack v) (hv : Extends sources stack v v') :
    Ready sources fuel stack v' where
  fuel := h.fuel
  nodup := h.nodup
  known := h.known
  visiting x := by rw [hv.visiting, h.visiting]
  unfinished x hx := hv.unfinished x hx (h.unfinished x hx)
  members x hx := by
    rcases hv.within x hx with hx | ⟨hx, -⟩ | hx
    · exact (h.members x hx).imp_left (hv.done x)
    · exact .inl hx
    · exact .inr hx

/-- The stack has no more sources than there are. -/
theorem Ready.fuel_pos {fuel : Nat} {stack : List String} {v : Visits}
    (h : Ready sources fuel stack v) : 0 < fuel := by
  have hsub : stack ⊆ sources.map (·.name) := fun x hx => mem_names (h.known x hx)
  have hle := (h.nodup.subperm hsub).length_le
  rw [List.length_map] at hle
  have hfuel := h.fuel
  omega

/-! ## 4. A call, by cases -/

/-- The state in which a source is being visited. -/
def entered (name : String) (v : Visits) : Visits := { v with visiting := name :: v.visiting }

/-- The state once it is finished. -/
def finished (name : String) (v : Visits) : Visits :=
  { v with visiting := v.visiting.erase name, done := name :: v.done }

/-- The calls for some sources in turn. -/
def visitAll (sources : List SourceSpec) (fuel : Nat) (stack : List String) (deps : List String)
    (v : Visits) : Visits := deps.foldl (fun v dep => visit sources fuel dep stack v) v

theorem visitAll_cons (fuel : Nat) (stack : List String) (dep : String) (deps : List String)
    (v : Visits) : visitAll sources fuel stack (dep :: deps) v =
      visitAll sources fuel stack deps (visit sources fuel dep stack v) := rfl

/-- What a call does: nothing, report a part of the stack, or enter the source. -/
theorem visit_cases (sources : List SourceSpec) (fuel : Nat) (name : String)
    (stack : List String) (v : Visits) :
    (known sources name = false ∨ name ∈ v.done) ∧
        visit sources (fuel + 1) name stack v = v ∨
    (name ∉ v.done ∧ name ∈ v.visiting) ∧ known sources name ∧
        visit sources (fuel + 1) name stack v =
          { v with members := v.members ++ above stack name } ∨
    (name ∉ v.done ∧ name ∉ v.visiting) ∧ ∃ s, byName sources name = some s ∧
        visit sources (fuel + 1) name stack v = finished name
          (visitAll sources fuel (stack ++ [name]) (sourceDependencies s) (entered name v)) := by
  cases hs : byName sources name with
  | none =>
    have hk : known sources name = false := by rw [known, hs]; rfl
    exact .inl ⟨.inl hk, by simp only [visit, hs]⟩
  | some s =>
    have hk : known sources name := by rw [known, hs]; rfl
    by_cases hd : name ∈ v.done
    · exact .inl ⟨.inr hd, by simp only [visit, hs, if_pos hd]⟩
    · by_cases hv : name ∈ v.visiting
      · exact .inr (.inl ⟨⟨hd, hv⟩, hk, by simp only [visit, hs, if_neg hd, if_pos hv, above]⟩)
      · refine .inr (.inr ⟨⟨hd, hv⟩, s, rfl, ?_⟩)
        simp only [visit, hs, if_neg hd, if_neg hv, finished, visitAll, entered]

/-- A part of the stack is reported. -/
theorem Ready.extends_report {fuel : Nat} {stack : List String} {v : Visits} {name : String}
    (_h : Ready sources fuel stack v) :
    Extends sources stack v { v with members := v.members ++ above stack name } where
  visiting := rfl
  done _ h := h
  members _ h := List.mem_append_left _ h
  unfinished _ _ h := h
  within x hx := by
    rcases List.mem_append.mp hx with hx | hx
    · exact .inl hx
    · exact .inr (.inr (mem_of_mem_above hx))
  closed _ h hn := absurd h hn
  ordered h := h.mono fun _ => List.mem_append_left _

theorem Ready.entered {fuel : Nat} {stack : List String} {v : Visits} {name : String}
    (h : Ready sources (fuel + 1) stack v) (hk : Spec.known sources name) (hd : name ∉ v.done)
    (hs : name ∉ stack) : Ready sources fuel (stack ++ [name]) (entered name v) where
  fuel := by
    have := h.fuel
    rw [List.length_append, List.length_singleton]
    omega
  nodup := List.nodup_append.mpr ⟨h.nodup, List.nodup_singleton name, by
    intro a ha b hb hab
    exact hs (by rw [← List.mem_singleton.mp hb, ← hab]; exact ha)⟩
  known x hx := by
    rcases List.mem_append.mp hx with hx | hx
    · exact h.known x hx
    · exact List.mem_singleton.mp hx ▸ hk
  visiting x := by
    rw [Cycles.entered, List.mem_cons, h.visiting, List.mem_append, List.mem_singleton, or_comm]
  unfinished x hx := by
    rcases List.mem_append.mp hx with hx | hx
    · exact h.unfinished x hx
    · exact List.mem_singleton.mp hx ▸ hd
  members x hx := (h.members x hx).imp_right (List.mem_append_left _)

/-- With the source being visited on top, what is finished now has all it depends on finished or on
the stack, where it is reported. -/
theorem Ready.closed_top {fuel : Nat} {stack : List String} {v v' : Visits} {name : String}
    {s : SourceSpec} (h : Ready sources (fuel + 1) stack v) (hs : byName sources name = some s)
    (hd : name ∉ v.done) (hv : Extends sources (stack ++ [name]) (Cycles.entered name v) v')
    (hmet : ∀ e ∈ sourceDependencies s, Spec.known sources e → Met (stack ++ [name]) v' e) :
    ∀ w ∈ name :: v'.done, w ∉ v.done → ∀ e, DependsOn sources w e →
      (e ∈ v'.done ∨ e ∈ stack ++ [name]) ∧
        (e ∈ stack ++ [name] → ∀ z ∈ above (stack ++ [name]) e, z ∈ v'.members) := by
  intro w hw hwd e he
  rcases List.mem_cons.mp hw with rfl | hw
  · obtain ⟨s', hs', hdep, hke⟩ := he
    obtain rfl : s = s' := Option.some.inj (hs.symm.trans hs')
    rcases hmet e hdep hke with hed | ⟨hes, hem⟩
    · refine ⟨.inl hed, fun hes => absurd hed (hv.unfinished e hes ?_)⟩
      rcases List.mem_append.mp hes with hes | hes
      · exact h.unfinished e hes
      · exact List.mem_singleton.mp hes ▸ hd
    · exact ⟨.inr hes, fun _ => hem⟩
  · exact hv.closed w hw hwd e he

/-- What a source entered leaves, where its calls keep to the stack with it on top. -/
theorem Ready.extends_finished {fuel : Nat} {stack : List String} {v v' : Visits} {name : String}
    {s : SourceSpec} (h : Ready sources (fuel + 1) stack v) (hs : byName sources name = some s)
    (hd : name ∉ v.done) (hn : name ∉ stack)
    (hv : Extends sources (stack ++ [name]) (Cycles.entered name v) v')
    (hmet : ∀ e ∈ sourceDependencies s, Spec.known sources e → Met (stack ++ [name]) v' e) :
    Extends sources stack v (finished name v') where
  visiting := by
    rw [finished, hv.visiting, Cycles.entered]
    exact List.erase_cons_head ..
  done x hx := List.mem_cons_of_mem _ (hv.done x hx)
  members x hx := hv.members x hx
  unfinished x hx hxd := by
    rintro (_ | ⟨_, hx'⟩)
    · exact hn hx
    · exact hv.unfinished x (List.mem_append_left _ hx) hxd hx'
  within x hx := by
    rcases hv.within x hx with hx | ⟨hx, hxd⟩ | hx
    · exact .inl hx
    · exact .inr (.inl ⟨List.mem_cons_of_mem _ hx, hxd⟩)
    · rcases List.mem_append.mp hx with hx | hx
      · exact .inr (.inr hx)
      · rw [List.mem_singleton.mp hx]
        exact .inr (.inl ⟨List.mem_cons_self, hd⟩)
  closed w hw hwd e he := by
    have hstep := h.closed_top hs hd hv hmet w hw hwd e he
    refine ⟨?_, fun hes z hz => hstep.2 (List.mem_append_left _ hes) z (mem_above_concat hz hes)⟩
    rcases hstep.1 with hed | hes
    · exact .inl (List.mem_cons_of_mem _ hed)
    · rcases List.mem_append.mp hes with hes | hes
      · exact .inr hes
      · rw [List.mem_singleton.mp hes]
        exact .inl List.mem_cons_self
  ordered ho := by
    refine ⟨?_, hv.ordered ho⟩
    rintro e ⟨s', hs', hdep, hke⟩
    obtain rfl : s = s' := Option.some.inj (hs.symm.trans hs')
    rcases hmet e hdep hke with hed | ⟨hes, hem⟩
    · exact .inl hed
    · exact .inr ⟨hem name (top_mem_above hes), hem e (mem_above_self hes)⟩

/-- Calls in turn, where each keeps to the stack and looks at its source. -/
theorem Ready.visitAll {fuel : Nat} {stack : List String}
    (hcall : ∀ (name : String) (v : Visits), Ready sources fuel stack v →
      Extends sources stack v (visit sources fuel name stack v) ∧
        (Spec.known sources name → Met stack (visit sources fuel name stack v) name)) :
    ∀ (deps : List String) {v : Visits}, Ready sources fuel stack v →
      Extends sources stack v (visitAll sources fuel stack deps v) ∧
        ∀ e ∈ deps, Spec.known sources e → Met stack (visitAll sources fuel stack deps v) e
  | [], v, _ => ⟨Extends.refl stack v, fun _ he => absurd he List.not_mem_nil⟩
  | dep :: deps, v, h => by
    obtain ⟨hext, hmet⟩ := hcall dep v h
    obtain ⟨hext', hmet'⟩ := Ready.visitAll hcall deps (h.extends hext)
    rw [visitAll_cons]
    refine ⟨hext.trans hext', ?_⟩
    rintro e he hk
    rcases List.mem_cons.mp he with rfl | he
    · exact (hmet hk).extends hext'
    · exact hmet' e he hk

/-- **What a call of the search leaves.** -/
theorem Ready.visit : ∀ (fuel : Nat) {stack : List String} (name : String) (v : Visits),
    Ready sources fuel stack v →
      Extends sources stack v (visit sources fuel name stack v) ∧
        (Spec.known sources name → Met stack (visit sources fuel name stack v) name)
  | 0, _, _, _, h => absurd h.fuel_pos (Nat.lt_irrefl 0)
  | fuel + 1, stack, name, v, h => by
    rcases visit_cases sources fuel name stack v with
      ⟨hno, heq⟩ | ⟨⟨hd, hv⟩, -, heq⟩ | ⟨⟨hd, hv⟩, s, hs, heq⟩
    · rw [heq]
      refine ⟨Extends.refl stack v, fun hk => .inl ?_⟩
      exact hno.resolve_left (by simp [hk])
    · rw [heq]
      refine ⟨h.extends_report, fun _ => .inr ⟨(h.visiting name).mp hv, ?_⟩⟩
      exact fun z hz => List.mem_append_right _ hz
    · have hn : name ∉ stack := fun hn => hv ((h.visiting name).mpr hn)
      have hk : Spec.known sources name := by rw [Spec.known, hs]; rfl
      obtain ⟨hext, hmet⟩ := Ready.visitAll (fun name v => Ready.visit fuel name v)
        (sourceDependencies s) (h.entered hk hd hn)
      rw [heq]
      exact ⟨h.extends_finished hs hd hn hext hmet, fun _ => .inl List.mem_cons_self⟩

/-! ## 5. Every cycle is met -/

/-- What the search over all sources leaves. -/
def searched (sources : List SourceSpec) : Visits :=
  visitAll sources (sources.length + 1) [] (sources.map (·.name)) ⟨[], [], []⟩

theorem findCycleMembers_eq : findCycleMembers sources = (searched sources).members := by
  rw [findCycleMembers, searched, visitAll, List.foldl_map]

theorem ready_start (sources : List SourceSpec) : Ready sources (sources.length + 1) [] ⟨[], [], []⟩ where
  fuel := rfl
  nodup := List.nodup_nil
  known _ hx := absurd hx List.not_mem_nil
  visiting _ := Iff.rfl
  unfinished _ hx := absurd hx List.not_mem_nil
  members _ hx := absurd hx List.not_mem_nil

theorem extends_searched : Extends sources [] ⟨[], [], []⟩ (searched sources) :=
  (Ready.visitAll (fun name v => Ready.visit _ name v) _ (ready_start sources)).1

/-- Every source is finished. -/
theorem mem_done {name : String} (h : known sources name) : name ∈ (searched sources).done := by
  have hmet := (Ready.visitAll (fun name v => Ready.visit _ name v) (sources.map (·.name))
    (ready_start sources)).2 name (mem_names h) h
  exact hmet.resolve_right fun hs => absurd hs.1 List.not_mem_nil

/-- How many sources were finished before `name`. -/
def rank (done : List String) (name : String) : Nat := done.reverse.idxOf name

theorem rank_cons {done : List String} {d a : String} (h : a ∈ done) :
    rank (d :: done) a = rank done a := by
  rw [rank, List.reverse_cons, List.idxOf_append_of_mem (List.mem_reverse.mpr h), rank]

theorem rank_lt_length {done : List String} {a : String} (h : a ∈ done) :
    rank done a < done.length := by
  have hlt := List.idxOf_lt_length_of_mem (List.mem_reverse.mpr h)
  rwa [List.length_reverse] at hlt

/-- A source that is not reported was finished after those it depends on. -/
theorem Ordered.rank_lt {members : List String} {a b : String} (h : DependsOn sources a b)
    (ha : a ∉ members) : ∀ {done : List String}, Ordered sources members done → a ∈ done →
      b ∈ done ∧ rank done b < rank done a
  | [], _, hm => absurd hm List.not_mem_nil
  | d :: done, ho, hm => by
    by_cases had : a ∈ done
    · obtain ⟨hb, hlt⟩ := Ordered.rank_lt h ha ho.2 had
      refine ⟨List.mem_cons_of_mem d hb, ?_⟩
      rw [rank_cons hb, rank_cons had]
      exact hlt
    · obtain rfl : a = d := (List.mem_cons.mp hm).resolve_right had
      have hb : b ∈ done := (ho.1 b h).resolve_right fun hm => ha hm.1
      refine ⟨List.mem_cons_of_mem a hb, ?_⟩
      have hrank : rank (a :: done) a = done.length := by
        rw [rank, List.reverse_cons,
          List.idxOf_append_of_notMem (fun hr => had (List.mem_reverse.mp hr)),
          List.idxOf_cons_self, List.length_reverse, Nat.add_zero]
      rw [rank_cons hb, hrank]
      exact rank_lt_length hb

/-- **Every cycle is met**: the sources that are not reported depend on each other in one
direction only. -/
theorem rank_lt {a b : String} (h : DependsOn sources a b) (ha : a ∉ findCycleMembers sources) :
    rank (searched sources).done b < rank (searched sources).done a := by
  rw [findCycleMembers_eq] at ha
  exact (Ordered.rank_lt h ha (extends_searched.ordered trivial) (mem_done h.known_left)).2

/-! ## 6. What is reported -/

/-- A step to a source that the search has not finished. -/
def Around (sources : List SourceSpec) (done : List String) (a b : String) : Prop :=
  DependsOn sources a b ∧ b ∉ done

/-- From `name` one gets back to it or to the stack, through no finished source. -/
def LeadsBack (sources : List SourceSpec) (done stack : List String) (name : String) : Prop :=
  ∃ t ∈ stack ++ [name], TransGen (Around sources done) name t

theorem Around.mono {done done' : List String} (h : ∀ x ∈ done, x ∈ done') {a b : String}
    (hab : Around sources done' a b) : Around sources done a b :=
  ⟨hab.1, fun hb => hab.2 (h b hb)⟩

/-- Why a source of the stack is reported in a call for `name`: from there one gets back to the
stack under it. -/
def Reported (sources : List SourceSpec) (stack : List String) (v : Visits) (name z : String) :
    Prop :=
  (known sources name ∧ name ∉ v.done) ∧
    ∃ t ∈ stack, ReflTransGen (Around sources v.done) name t ∧ z ∈ above stack t

theorem Reported.extends {stack : List String} {v v' : Visits} {name z : String}
    (h : Extends sources stack v v') (hr : Reported sources stack v' name z) :
    Reported sources stack v name z := by
  obtain ⟨⟨hk, hn⟩, t, ht, hpath, hz⟩ := hr
  refine ⟨⟨hk, fun hd => hn (h.done name hd)⟩, t, ht, ?_, hz⟩
  exact ReflTransGen.mono (fun _ _ => Around.mono h.done) _ _ hpath

/-- Of calls in turn, one reported the source. -/
theorem Ready.reportedAll {fuel : Nat} {stack : List String} {z : String}
    (hcall : ∀ (name : String) (v : Visits), Ready sources fuel stack v →
      z ∈ (Spec.visit sources fuel name stack v).members → z ∉ v.members →
        Reported sources stack v name z) :
    ∀ (deps : List String) {v : Visits}, Ready sources fuel stack v →
      z ∈ (Cycles.visitAll sources fuel stack deps v).members → z ∉ v.members →
        ∃ dep ∈ deps, Reported sources stack v dep z
  | [], _, _, hz, hn => absurd hz hn
  | dep :: deps, v, h, hz, hn => by
    by_cases hz' : z ∈ (Spec.visit sources fuel dep stack v).members
    · exact ⟨dep, List.mem_cons_self, hcall dep v h hz' hn⟩
    · have hext := (Ready.visit fuel dep v h).1
      obtain ⟨dep', hdep', hr⟩ := Ready.reportedAll hcall deps (h.extends hext) hz hz'
      exact ⟨dep', List.mem_cons_of_mem dep hdep', hr.extends hext⟩

/-- A source of the stack with `name` on top is reported by the calls that `name` makes: from
`name` one gets back to the stack under it. -/
theorem leads_of_reported {stack : List String} {v : Visits} {name z : String} {s : SourceSpec}
    (hs : byName sources name = some s)
    (hr : ∃ dep ∈ sourceDependencies s,
      Reported sources (stack ++ [name]) (Cycles.entered name v) dep z) :
    ∃ t ∈ stack ++ [name], TransGen (Around sources v.done) name t ∧
      z ∈ above (stack ++ [name]) t := by
  obtain ⟨dep, hdep, ⟨hk, hn⟩, t, ht, hpath, hz⟩ := hr
  exact ⟨t, ht, TransGen.head' ⟨⟨s, hs, hdep, hk⟩, hn⟩ hpath, hz⟩

/-- A call reports of the stack what it leads back under. -/
theorem Ready.reported : ∀ (fuel : Nat) {stack : List String} {z : String} (name : String)
    (v : Visits), Ready sources fuel stack v →
      z ∈ (Spec.visit sources fuel name stack v).members → z ∉ v.members → z ∈ stack →
        Reported sources stack v name z
  | 0, _, _, _, _, h, _, _, _ => absurd h.fuel_pos (Nat.lt_irrefl 0)
  | fuel + 1, stack, z, name, v, h, hz, hn, hzs => by
    rcases visit_cases sources fuel name stack v with
      ⟨-, heq⟩ | ⟨⟨hd, hv⟩, hk, heq⟩ | ⟨⟨hd, hv⟩, s, hs, heq⟩
    · rw [heq] at hz
      exact absurd hz hn
    · rw [heq] at hz
      have hz' : z ∈ above stack name := (List.mem_append.mp hz).resolve_left hn
      exact ⟨⟨hk, hd⟩, name, (h.visiting name).mp hv, .refl, hz'⟩
    · have hns : name ∉ stack := fun hs => hv ((h.visiting name).mpr hs)
      have hk : Spec.known sources name := by rw [Spec.known, hs]; rfl
      rw [heq] at hz
      have hr := Ready.reportedAll (fun dep v' h' hz' hn' => Ready.reported fuel dep v' h' hz' hn'
        (List.mem_append_left _ hzs)) (sourceDependencies s) (h.entered hk hd hns) hz hn
      obtain ⟨t, ht, hpath, hzt⟩ := leads_of_reported hs hr
      have hne : z ≠ name := fun hzn => hns (hzn ▸ hzs)
      obtain ⟨hts, hzt⟩ := mem_above_of_ne hns hne ht hzt
      exact ⟨⟨hk, hd⟩, t, hts, hpath.to_reflTransGen, hzt⟩

/-- **A source is reported, as the search enters it, where there is a way back to it or to its
stack that leads through no finished source.** -/
theorem Ready.mem_visit_iff {fuel : Nat} {stack : List String} {v : Visits} {name : String}
    (h : Ready sources (fuel + 1) stack v) (hk : Spec.known sources name) (hd : name ∉ v.done)
    (hn : name ∉ stack) :
    name ∈ (Spec.visit sources (fuel + 1) name stack v).members ↔
      LeadsBack sources v.done stack name := by
  rcases visit_cases sources fuel name stack v with
    ⟨hno, -⟩ | ⟨⟨-, hv⟩, -, -⟩ | ⟨⟨-, hv⟩, s, hs, heq⟩
  · exact absurd hno (by simp [hk, hd])
  · exact absurd ((h.visiting name).mp hv) hn
  have hready := h.entered hk hd hn
  obtain ⟨hext, hmet⟩ := Ready.visitAll (fun name v => Ready.visit fuel name v)
    (sourceDependencies s) hready
  have hmem : name ∉ v.members := fun hm => (h.members name hm).elim hd hn
  rw [heq]
  generalize hv' : Cycles.visitAll sources fuel (stack ++ [name]) (sourceDependencies s)
    (Cycles.entered name v) = v' at hext hmet
  change name ∈ v'.members ↔ _
  constructor
  · intro hz
    have hr := Ready.reportedAll (fun dep v' h' hz' hn' => Ready.reported fuel dep v' h' hz' hn'
      (List.mem_append_right _ List.mem_cons_self)) (sourceDependencies s) hready (hv' ▸ hz) hmem
    obtain ⟨t, ht, hpath, -⟩ := leads_of_reported hs hr
    exact ⟨t, ht, hpath⟩
  · rintro ⟨t, ht, hpath⟩
    -- along the path every source is finished in this visit, until a step meets the stack
    have hclosed := h.closed_top hs hd hext hmet
    obtain ⟨u, hu, hut⟩ := TransGen.tail'_iff.mp hpath
    have hstep : ∀ {w e : String}, w ∈ name :: v'.done → w ∉ v.done → DependsOn sources w e →
        e ∈ v'.done ∨ name ∈ v'.members := fun hw hwd he =>
      (hclosed _ hw hwd _ he).1.imp_right fun hes =>
        (hclosed _ hw hwd _ he).2 hes name (top_mem_above hes)
    have hwalk : (u ∈ name :: v'.done ∧ u ∉ v.done) ∨ name ∈ v'.members := by
      clear hut
      induction hu with
      | refl => exact .inl ⟨List.mem_cons_self, hd⟩
      | tail _ hbc ih =>
        refine ih.elim (fun hb => ?_) .inr
        exact (hstep hb.1 hb.2 hbc.1).imp_left fun hc => ⟨List.mem_cons_of_mem _ hc, hbc.2⟩
    refine hwalk.elim (fun hu => ?_) id
    exact (hclosed u hu.1 hu.2 t hut.1).2 ht name (top_mem_above ht)

/-! ## 7. The calls that enter a source -/

/-- A call of the search makes, itself or further down, the call that enters `x` with a stack in a
state. -/
inductive Enters (sources : List SourceSpec) :
    Nat → String → List String → Visits → String → List String → Visits → Prop
  | here {fuel : Nat} {name : String} {stack : List String} {v : Visits} :
      known sources name → name ∉ v.done → name ∉ v.visiting →
      Enters sources (fuel + 1) name stack v name stack v
  | under {fuel : Nat} {name : String} {stack : List String} {v : Visits} {s : SourceSpec}
      {pre post : List String} {dep x : String} {stack' : List String} {v' : Visits} :
      byName sources name = some s → name ∉ v.done → name ∉ v.visiting →
      sourceDependencies s = pre ++ dep :: post →
      Enters sources fuel dep (stack ++ [name])
        (visitAll sources fuel (stack ++ [name]) pre (entered name v)) x stack' v' →
      Enters sources (fuel + 1) name stack v x stack' v'

/-- The search over all sources enters `x` with a stack in a state. -/
def EntersAt (sources : List SourceSpec) (x : String) (stack : List String) (v : Visits) : Prop :=
  ∃ pre name post, sources.map (·.name) = pre ++ name :: post ∧
    Enters sources (sources.length + 1) name []
      (visitAll sources (sources.length + 1) [] pre ⟨[], [], []⟩) x stack v

theorem visitAll_append {fuel : Nat} {stack : List String} {pre post : List String} {v : Visits} :
    visitAll sources fuel stack (pre ++ post) v =
      visitAll sources fuel stack post (visitAll sources fuel stack pre v) := List.foldl_append

theorem Ready.visitAll_extends {fuel : Nat} {stack : List String} {v : Visits}
    (h : Ready sources fuel stack v) (deps : List String) :
    Extends sources stack v (Cycles.visitAll sources fuel stack deps v) :=
  (Ready.visitAll (fun name v => Ready.visit fuel name v) deps h).1

/-- The entry of `x` found in some call, seen from a state `w` that the search reaches later: `x` is
finished, and reported where the entry reported it. -/
structure Entry (sources : List SourceSpec) (v w : Visits) (x : String) (stack : List String)
    (v' : Visits) : Prop where
  known : known sources x
  fresh : x ∉ v.done
  done : x ∈ w.done
  reported : x ∈ w.members ↔ LeadsBack sources v'.done stack x

/-- Calls made later, below a stack, change nothing for a source that is finished. -/
theorem Entry.extends {stack stack' : List String} {v w w' v' : Visits} {x : String}
    (h : Entry sources v w x stack' v') (hw : Extends sources stack w w') (hx : x ∉ stack) :
    Entry sources v w' x stack' v' where
  known := h.known
  fresh := h.fresh
  done := hw.done x h.done
  reported := by
    rw [← h.reported]
    refine ⟨fun hm => ?_, hw.members x⟩
    rcases hw.within x hm with hm | ⟨-, hd⟩ | hs
    · exact hm
    · exact absurd h.done hd
    · exact absurd hs hx

theorem Enters.entry {fuel : Nat} {name x : String} {stack stack' : List String} {v v' : Visits}
    (he : Enters sources fuel name stack v x stack' v') :
    Ready sources fuel stack v →
      Entry sources v (visit sources fuel name stack v) x stack' v' := by
  induction he with
  | @here fuel name stack v hk hd hv =>
    intro h
    have hn : name ∉ stack := fun hs => hv ((h.visiting name).mpr hs)
    have hmet := (Ready.visit (fuel + 1) name v h).2 hk
    exact ⟨hk, hd, hmet.resolve_right fun hs => hn hs.1, h.mem_visit_iff hk hd hn⟩
  | @under fuel name stack v s pre post dep x stack' v' hs hd hv hdeps _ ih =>
    intro h
    have hn : name ∉ stack := fun hs => hv ((h.visiting name).mpr hs)
    have hk : known sources name := by rw [known, hs]; rfl
    have hready := h.entered hk hd hn
    have hpre := hready.extends (hready.visitAll_extends pre)
    have hentry := ih hpre
    have hcall := (Ready.visit fuel dep _ hpre).1
    have hpost := hpre.extends hcall
    have hx : x ∉ stack ++ [name] := fun hx => hpost.unfinished x hx hentry.done
    have hlater := hentry.extends (hpost.visitAll_extends post) hx
    rcases visit_cases sources fuel name stack v with
      ⟨hno, -⟩ | ⟨⟨-, hv'⟩, -, -⟩ | ⟨-, s', hs', heq⟩
    · exact absurd hno (by simp [hk, hd])
    · exact absurd hv' hv
    obtain rfl : s = s' := Option.some.inj (hs.symm.trans hs')
    rw [heq, hdeps, visitAll_append, visitAll_cons]
    refine ⟨hlater.known, fun hx => hlater.fresh ?_, List.mem_cons_of_mem _ hlater.done,
      hlater.reported⟩
    exact (hready.visitAll_extends pre).done x hx

theorem Enters.known_start {fuel : Nat} {name x : String} {stack stack' : List String}
    {v v' : Visits} (he : Enters sources fuel name stack v x stack' v') : known sources name := by
  cases he with
  | here hk => exact hk
  | under hs =>
    rw [known, hs]
    rfl

/-- The stack of an entry leads to the source entered. -/
theorem Enters.leads {fuel : Nat} {name x : String} {stack stack' : List String} {v v' : Visits}
    (he : Enters sources fuel name stack v x stack' v') :
    (∀ t ∈ stack, ReflTransGen (DependsOn sources) t name) →
      ∀ t ∈ stack', ReflTransGen (DependsOn sources) t x := by
  induction he with
  | here => exact id
  | @under fuel name stack v s pre post dep x stack' v' hs hd hv hdeps he ih =>
    intro h
    have hdep : dep ∈ sourceDependencies s := by rw [hdeps]; simp
    have hstep : DependsOn sources name dep := ⟨s, hs, hdep, he.known_start⟩
    refine ih fun t ht => ?_
    rcases List.mem_append.mp ht with ht | ht
    · exact (h t ht).tail hstep
    · rw [List.mem_singleton.mp ht]
      exact .single hstep

/-- Of calls in turn, one has the entry of a source that they finish. -/
theorem Ready.exists_entersAll {fuel : Nat} {stack : List String} {x : String}
    (hcall : ∀ (name : String) (v : Visits), Ready sources fuel stack v →
      x ∈ (Spec.visit sources fuel name stack v).done → x ∉ v.done →
        ∃ stack' v', Enters sources fuel name stack v x stack' v') :
    ∀ (deps : List String) {v : Visits}, Ready sources fuel stack v →
      x ∈ (Cycles.visitAll sources fuel stack deps v).done → x ∉ v.done →
        ∃ pre dep post, deps = pre ++ dep :: post ∧ ∃ stack' v',
          Enters sources fuel dep stack (Cycles.visitAll sources fuel stack pre v) x stack' v'
  | [], _, _, hx, hn => absurd hx hn
  | dep :: deps, v, h, hx, hn => by
    by_cases hx' : x ∈ (Spec.visit sources fuel dep stack v).done
    · obtain ⟨stack', v', he⟩ := hcall dep v h hx' hn
      exact ⟨[], dep, deps, rfl, stack', v', he⟩
    · have hext := (Ready.visit fuel dep v h).1
      obtain ⟨pre, dep', post, rfl, he⟩ :=
        Ready.exists_entersAll hcall deps (h.extends hext) hx hx'
      exact ⟨dep :: pre, dep', post, rfl, he⟩

/-- What a call finishes it has entered. -/
theorem Ready.exists_enters : ∀ (fuel : Nat) {stack : List String} {x : String} (name : String)
    (v : Visits), Ready sources fuel stack v →
      x ∈ (Spec.visit sources fuel name stack v).done → x ∉ v.done →
        ∃ stack' v', Enters sources fuel name stack v x stack' v'
  | 0, _, _, _, _, h, _, _ => absurd h.fuel_pos (Nat.lt_irrefl 0)
  | fuel + 1, stack, x, name, v, h, hx, hn => by
    rcases visit_cases sources fuel name stack v with
      ⟨-, heq⟩ | ⟨-, -, heq⟩ | ⟨⟨hd, hv⟩, s, hs, heq⟩
    · rw [heq] at hx
      exact absurd hx hn
    · rw [heq] at hx
      exact absurd hx hn
    · have hns : name ∉ stack := fun hs => hv ((h.visiting name).mpr hs)
      have hk : Spec.known sources name := by rw [Spec.known, hs]; rfl
      rw [heq] at hx
      rcases List.mem_cons.mp hx with rfl | hx
      · exact ⟨stack, v, .here hk hd hv⟩
      · obtain ⟨pre, dep, post, hdeps, stack', v', he⟩ :=
          Ready.exists_entersAll (fun dep v' => Ready.exists_enters fuel dep v') _
            (h.entered hk hd hns) hx hn
        exact ⟨stack', v', .under hs hd hv hdeps he⟩

/-! ## 8. Exactly the sources on a cycle -/

theorem EntersAt.entry {x : String} {stack : List String} {v : Visits}
    (h : EntersAt sources x stack v) :
    x ∈ findCycleMembers sources ↔ LeadsBack sources v.done stack x := by
  obtain ⟨pre, name, post, hnames, he⟩ := h
  have hpre := (ready_start sources).extends ((ready_start sources).visitAll_extends pre)
  have hentry := he.entry hpre
  have hpost := hpre.extends (Ready.visit _ name _ hpre).1
  have hlater := hentry.extends (hpost.visitAll_extends post) List.not_mem_nil
  rw [findCycleMembers_eq, searched, hnames, visitAll_append, visitAll_cons]
  exact hlater.reported

theorem exists_entersAt {x : String} (h : known sources x) :
    ∃ stack v, EntersAt sources x stack v := by
  obtain ⟨pre, name, post, hnames, stack, v, he⟩ :=
    Ready.exists_entersAll (fun name v => Ready.exists_enters _ name v) _
      (ready_start sources) (mem_done h) List.not_mem_nil
  exact ⟨stack, v, pre, name, post, hnames, he⟩

theorem EntersAt.onCycle {x : String} {stack : List String} {v : Visits}
    (h : EntersAt sources x stack v) (hb : LeadsBack sources v.done stack x) :
    OnCycle sources x := by
  obtain ⟨pre, name, post, -, he⟩ := h
  obtain ⟨t, ht, hpath⟩ := hb
  have hpath' : TransGen (DependsOn sources) x t := TransGen.mono (fun _ _ hab => hab.1) _ _ hpath
  rcases List.mem_append.mp ht with ht | ht
  · exact hpath'.trans_left (he.leads (fun _ h => absurd h List.not_mem_nil) t ht)
  · rwa [List.mem_singleton.mp ht] at hpath'

/-- What is reported is on a cycle. -/
theorem onCycle_of_mem {x : String} (h : x ∈ findCycleMembers sources) : OnCycle sources x := by
  rw [findCycleMembers_eq] at h
  have hdone : x ∈ (searched sources).done := by
    rcases extends_searched.within x h with hx | ⟨hx, -⟩ | hx
    · exact absurd hx List.not_mem_nil
    · exact hx
    · exact absurd hx List.not_mem_nil
  obtain ⟨pre, name, post, hnames, stack, v, he⟩ :=
    Ready.exists_entersAll (fun name v => Ready.exists_enters _ name v) _
      (ready_start sources) hdone List.not_mem_nil
  have hat : EntersAt sources x stack v := ⟨pre, name, post, hnames, he⟩
  rw [← findCycleMembers_eq] at h
  exact hat.onCycle (hat.entry.mp h)

/-- The claim: the members are the sources on a cycle. -/
def Exact (sources : List SourceSpec) : Prop :=
  ∀ x, x ∈ findCycleMembers sources ↔ OnCycle sources x

/-- **The search is exact where it enters no source of a cycle whose ways back all lead through
finished sources.** -/
theorem exact_iff (sources : List SourceSpec) : Exact sources ↔
    ∀ x stack v, EntersAt sources x stack v → OnCycle sources x →
      LeadsBack sources v.done stack x := by
  constructor
  · intro h x stack v hat hx
    exact hat.entry.mp ((h x).mpr hx)
  · intro h x
    refine ⟨onCycle_of_mem, fun hx => ?_⟩
    obtain ⟨stack, v, hat⟩ := exists_entersAt hx.known
    exact hat.entry.mpr (h x stack v hat hx)

/-! ## 9. Two cycles through one step -/

/-- A source of a file that joins others. -/
def joining (name : String) (others : List String) : SourceSpec where
  name := name
  kind := .dataset
  datasetId := some "ventes.csv"
  connectionConfigId := none
  query := none
  sourceType := none
  sourceOptions := []
  parent := none
  transforms := others.map fun other => .join other ["semaine"] false none
  fields := []
  measures := []

/-- `ventes` and `stock` join each other; `retours` is joined by `ventes`, and joins `stock`. -/
def triangles : List SourceSpec :=
  [joining "ventes" ["stock", "retours"], joining "stock" ["ventes"], joining "retours" ["stock"]]

/-- `stock` is finished when the search enters `retours`, whose only way back leads through it. -/
theorem not_exact_triangles : ¬ Exact triangles := by
  intro h
  have hrs : DependsOn triangles "retours" "stock" := ⟨_, rfl, by decide, by decide⟩
  have hsv : DependsOn triangles "stock" "ventes" := ⟨_, rfl, by decide, by decide⟩
  have hvr : DependsOn triangles "ventes" "retours" := ⟨_, rfl, by decide, by decide⟩
  have hcycle : OnCycle triangles "retours" := .tail (.tail (.single hrs) hsv) hvr
  have hmem : "retours" ∈ findCycleMembers triangles := (h "retours").mpr hcycle
  exact absurd hmem (by decide)

end Apowerb.Bi.Cycles
