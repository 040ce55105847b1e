/-
# Computations that may raise

What a sequence of steps in `Except` returned, step by step, so that no proof unfolds a `do`
block.
-/
import Mathlib.Init

namespace Except

universe u v

variable {ε : Type u} {α β : Type v}

/-- A sequence returned: its first step returned, and the rest returned on its result. -/
theorem bind_eq_ok_iff {x : Except ε α} {f : α → Except ε β} {b : β} :
    (x >>= f) = .ok b ↔ ∃ a, x = .ok a ∧ f a = .ok b := by
  cases x with
  | error e =>
    constructor
    · intro h
      cases h
    · rintro ⟨a, h, _⟩
      cases h
  | ok a =>
    constructor
    · intro h
      exact ⟨a, rfl, h⟩
    · rintro ⟨a', h, hf⟩
      cases h
      exact hf

/-- A sequence returns exactly where its first step does, if the rest always returns. -/
theorem bind_returns_iff {x : Except ε α} {f : α → Except ε β} (hf : ∀ a, ∃ b, f a = .ok b) :
    (∃ b, (x >>= f) = .ok b) ↔ ∃ a, x = .ok a := by
  constructor
  · rintro ⟨b, h⟩
    obtain ⟨a, ha, -⟩ := bind_eq_ok_iff.mp h
    exact ⟨a, ha⟩
  · rintro ⟨a, ha⟩
    obtain ⟨b, hb⟩ := hf a
    exact ⟨b, bind_eq_ok_iff.mpr ⟨a, ha, hb⟩⟩

/-- A result that is mapped: there was one. -/
theorem map_eq_ok_iff {x : Except ε α} {f : α → β} {b : β} :
    f <$> x = .ok b ↔ ∃ a, x = .ok a ∧ f a = b := by
  cases x with
  | error e => exact ⟨nofun, nofun⟩
  | ok a =>
    constructor
    · intro h
      cases h
      exact ⟨a, rfl, rfl⟩
    · rintro ⟨a', h, rfl⟩
      cases h
      rfl

/-- A pass over a list returned: it returned on every element. -/
theorem forM_eq_ok_iff {α : Type u} {ε : Type v} {f : α → Except ε PUnit.{v + 1}} {l : List α}
    {r : PUnit} :
    l.forM f = .ok r ↔ ∀ x ∈ l, f x = .ok ⟨⟩ := by
  induction l with
  | nil => exact ⟨fun _ x hx => absurd hx List.not_mem_nil, fun _ => rfl⟩
  | cons a rest ih =>
    change (f a >>= fun _ => rest.forM f) = .ok r ↔ _
    rw [bind_eq_ok_iff]
    constructor
    · rintro ⟨u, ha, hrest⟩ x hx
      rcases List.mem_cons.mp hx with rfl | hx
      · exact ha
      · exact ih.mp hrest x hx
    · intro h
      exact ⟨⟨⟩, h a List.mem_cons_self, ih.mpr fun x hx => h x (List.mem_cons_of_mem a hx)⟩

/-- What a pass over a list returned, it returned on one of the elements. -/
theorem exists_of_mem_mapM {f : α → Except ε β} {l : List α} {r : List β} {b : β}
    (h : l.mapM f = .ok r) (hb : b ∈ r) : ∃ a ∈ l, f a = .ok b := by
  induction l generalizing r with
  | nil =>
    cases h
    cases hb
  | cons a rest ih =>
    rw [List.mapM_cons] at h
    obtain ⟨c, ha, h⟩ := bind_eq_ok_iff.mp h
    obtain ⟨cs, hrest, h⟩ := bind_eq_ok_iff.mp h
    cases h
    rcases List.mem_cons.mp hb with rfl | hb
    · exact ⟨a, List.mem_cons_self, ha⟩
    · obtain ⟨x, hx, hfx⟩ := ih hrest hb
      exact ⟨x, List.mem_cons_of_mem a hx, hfx⟩

/-- What a pass over a list made of one of its elements is in what it returned. -/
theorem mem_of_mapM {f : α → Except ε β} {l : List α} {r : List β} {a : α}
    (h : l.mapM f = .ok r) (ha : a ∈ l) : ∃ b ∈ r, f a = .ok b := by
  induction l generalizing r with
  | nil => cases ha
  | cons x rest ih =>
    rw [List.mapM_cons] at h
    obtain ⟨b, hx, h⟩ := bind_eq_ok_iff.mp h
    obtain ⟨bs, hrest, h⟩ := bind_eq_ok_iff.mp h
    cases h
    rcases List.mem_cons.mp ha with rfl | ha
    · exact ⟨b, List.mem_cons_self, hx⟩
    · obtain ⟨c, hc, hfa⟩ := ih hrest ha
      exact ⟨c, List.mem_cons_of_mem b hc, hfa⟩

/-- A pass over a list returns as many results as there are elements. -/
theorem length_of_mapM {f : α → Except ε β} {l : List α} {r : List β} (h : l.mapM f = .ok r) :
    r.length = l.length := by
  induction l generalizing r with
  | nil =>
    cases h
    rfl
  | cons a rest ih =>
    rw [List.mapM_cons] at h
    obtain ⟨b, -, h⟩ := bind_eq_ok_iff.mp h
    obtain ⟨bs, hrest, h⟩ := bind_eq_ok_iff.mp h
    cases h
    rw [List.length_cons, List.length_cons, ih hrest]

/-- A pass over a list that returns on every element. -/
theorem mapM_eq_ok {f : α → Except ε β} {g : α → β} {l : List α} (h : ∀ a ∈ l, f a = .ok (g a)) :
    l.mapM f = .ok (l.map g) := by
  induction l with
  | nil => rfl
  | cons a rest ih =>
    rw [List.mapM_cons, h a List.mem_cons_self, ih fun b hb => h b (List.mem_cons_of_mem a hb)]
    rfl

/-- The result, or any value. -/
def result [Inhabited β] : Except ε β → β
  | .ok b => b
  | .error _ => default

/-- What a pass over a list returned, element by element. -/
theorem eq_map_of_mapM [Inhabited β] {f : α → Except ε β} {l : List α} {r : List β}
    (h : l.mapM f = .ok r) :
    (∀ a ∈ l, f a = .ok (f a).result) ∧ r = l.map fun a => (f a).result := by
  have hall : ∀ a ∈ l, f a = .ok (f a).result := by
    intro a ha
    obtain ⟨b, -, hb⟩ := mem_of_mapM h ha
    rw [hb]
    rfl
  rw [mapM_eq_ok hall] at h
  exact ⟨hall, (Except.ok.inj h).symm⟩

/-- A pass over a list returns exactly where it returns on every element. -/
theorem mapM_returns_iff {f : α → Except ε β} {l : List α} :
    (∃ r, l.mapM f = .ok r) ↔ ∀ a ∈ l, ∃ b, f a = .ok b := by
  induction l with
  | nil => exact ⟨fun _ a ha => absurd ha List.not_mem_nil, fun _ => ⟨[], rfl⟩⟩
  | cons a rest ih =>
    rw [List.mapM_cons, List.forall_mem_cons, ← ih]
    constructor
    · rintro ⟨r, h⟩
      obtain ⟨b, ha, h⟩ := bind_eq_ok_iff.mp h
      obtain ⟨bs, hrest, -⟩ := bind_eq_ok_iff.mp h
      exact ⟨⟨b, ha⟩, bs, hrest⟩
    · rintro ⟨⟨b, ha⟩, bs, hrest⟩
      exact ⟨b :: bs, bind_eq_ok_iff.mpr ⟨b, ha, bind_eq_ok_iff.mpr ⟨bs, hrest, rfl⟩⟩⟩

/-- **What a loop passed through.**  Where each turn relates its two states, a loop that returned
relates its first state to its last one, and took its turn on every element in between. -/
theorem foldlM_passes {σ : Type v} {f : σ → α → Except ε σ} {R : σ → σ → Prop}
    (hrefl : ∀ s, R s s) (htrans : ∀ s₁ s₂ s₃, R s₁ s₂ → R s₂ s₃ → R s₁ s₃)
    (hturn : ∀ s a s', f s a = .ok s' → R s s') {l : List α} {s s' : σ}
    (h : l.foldlM f s = .ok s') :
    R s s' ∧ ∀ a ∈ l, ∃ s₁ s₂, R s s₁ ∧ f s₁ a = .ok s₂ ∧ R s₂ s' := by
  induction l generalizing s with
  | nil =>
    cases h
    exact ⟨hrefl _, fun a ha => absurd ha List.not_mem_nil⟩
  | cons a rest ih =>
    rw [List.foldlM_cons] at h
    obtain ⟨mid, hfirst, hrest⟩ := bind_eq_ok_iff.mp h
    have hmid := hturn _ a mid hfirst
    obtain ⟨hlast, hpassed⟩ := ih hrest
    refine ⟨htrans _ mid _ hmid hlast, List.forall_mem_cons.mpr ⟨?_, ?_⟩⟩
    · exact ⟨_, mid, hrefl _, hfirst, hlast⟩
    · intro b hb
      obtain ⟨s₁, s₂, hbefore, hb, hafter⟩ := hpassed b hb
      exact ⟨s₁, s₂, htrans _ mid s₁ hmid hbefore, hb, hafter⟩

/-- A loop whose turns change nothing. -/
theorem foldlM_eq_self {σ : Type v} {f : σ → α → Except ε σ} {l : List α} {s : σ}
    (h : ∀ a ∈ l, f s a = .ok s) : l.foldlM f s = .ok s := by
  induction l with
  | nil => rfl
  | cons a rest ih =>
    rw [List.foldlM_cons]
    exact bind_eq_ok_iff.mpr
      ⟨s, h a List.mem_cons_self, ih fun b hb => h b (List.mem_cons_of_mem a hb)⟩

/-- A computation whose error is rewritten returned: the computation did. -/
theorem mapError_eq_ok_iff {ε' : Type u} {x : Except ε α} {f : ε → ε'} {a : α} :
    x.mapError f = .ok a ↔ x = .ok a := by
  cases x with
  | error e => exact ⟨nofun, nofun⟩
  | ok b =>
    constructor <;> intro h
    · cases h
      rfl
    · cases h
      rfl

/-! ## Computations that return alike -/

section Matched

variable {γ δ : Type v} {R : α → β → Prop} {S : γ → δ → Prop}

/-- Where the first computation returns, the second one does, with a related result. -/
def Matched (R : α → β → Prop) (x : Except ε α) (y : Except ε β) : Prop :=
  ∀ a, x = .ok a → ∃ b, y = .ok b ∧ R a b

theorem Matched.pure {a : α} {b : β} (h : R a b) :
    Matched R (.ok a : Except ε α) (.ok b : Except ε β) := by
  intro a' ha
  cases ha
  exact ⟨b, rfl, h⟩

theorem Matched.refl (x : Except ε α) : Matched Eq x x := fun a h => ⟨a, h, rfl⟩

theorem Matched.bind {x : Except ε α} {y : Except ε β} {f : α → Except ε γ} {g : β → Except ε δ}
    (h : Matched R x y) (hf : ∀ a b, R a b → Matched S (f a) (g b)) :
    Matched S (x >>= f) (y >>= g) := by
  intro c hc
  obtain ⟨a, ha, hc⟩ := bind_eq_ok_iff.mp hc
  obtain ⟨b, hb, hab⟩ := h a ha
  obtain ⟨d, hd, hcd⟩ := hf a b hab c hc
  exact ⟨d, bind_eq_ok_iff.mpr ⟨b, hb, hd⟩, hcd⟩

/-- The same computation before two others. -/
theorem Matched.after (x : Except ε α) {f : α → Except ε γ} {g : α → Except ε δ}
    (h : ∀ a, Matched S (f a) (g a)) : Matched S (x >>= f) (x >>= g) := by
  refine Matched.bind (.refl x) ?_
  rintro a _ rfl
  exact h a

theorem Matched.mapM {f g : α → Except ε γ} (l : List α) (h : ∀ a, Matched Eq (f a) (g a)) :
    Matched Eq (l.mapM f) (l.mapM g) := by
  induction l with
  | nil => exact .refl _
  | cons a rest ih =>
    rw [List.mapM_cons, List.mapM_cons]
    refine (h a).bind ?_
    rintro c _ rfl
    refine ih.bind ?_
    rintro cs _ rfl
    exact .refl _

end Matched

end Except
