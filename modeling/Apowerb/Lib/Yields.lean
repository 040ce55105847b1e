/-
# What a program returns

The rules of postconditions for `Prog`: whatever the replies, as long as they are of those that
`answers` allows, what the program returns satisfies `Q`.  A program that raises returns nothing.

* `Yields.bind`: a sequence, by what its first part yields.
* `Yields.fold_le`: a loop that adds at most a cost at each turn adds at most the sum of the costs.
* `of_run`: what a run returned, its handler replying as allowed.
* `Raises.bind`: what a sequence raises, its first part raises, or its second part after what the
  first yields.
-/
import Mathlib.Algebra.GroupWithZero.Nat
import Mathlib.Algebra.Order.Group.Nat
import Mathlib.Algebra.BigOperators.Group.List.Basic
import Apowerb.Lib.Prog

namespace Prog

variable {E : Type} {R : E → Type} {ε α β σ : Type} {answers : (e : E) → R e → Prop}

/-- Whatever the replies among `answers`, what is returned satisfies `Q`. -/
def Yields (answers : (e : E) → R e → Prop) (Q : α → Prop) : Prog R ε α → Prop
  | .ret a => Q a
  | .raise _ => True
  | .act e k => ∀ r, answers e r → (k r).Yields answers Q

theorem Yields.mono {Q Q' : α → Prop} {p : Prog R ε α} (h : p.Yields answers Q)
    (himp : ∀ a, Q a → Q' a) : p.Yields answers Q' := by
  induction p with
  | ret a => exact himp a h
  | raise e => trivial
  | act e k ih => exact fun r hr => ih r (h r hr)

/-- What a program returns is returned. -/
theorem yields_true (p : Prog R ε α) : p.Yields answers fun _ => True := by
  induction p with
  | ret a => trivial
  | raise e => trivial
  | act e k ih => exact fun r _ => ih r

/-- A sequence yields what its second part yields after the first. -/
theorem Yields.bind {Q : α → Prop} {S : β → Prop} {p : Prog R ε α} {f : α → Prog R ε β}
    (h : p.Yields answers Q) (hf : ∀ a, Q a → (f a).Yields answers S) :
    (p.bind f).Yields answers S := by
  induction p with
  | ret a => exact hf a h
  | raise e => trivial
  | act e k ih => exact fun r hr => ih r (h r hr)

theorem Yields.ofExcept {Q : α → Prop} {x : Except ε α} (h : ∀ a, x = .ok a → Q a) :
    (Prog.ofExcept x : Prog R ε α).Yields answers Q := by
  cases x with
  | ok a => exact h a rfl
  | error e => trivial

theorem Yields.ofExcept_mapError {δ : Type} {Q : α → Prop} {x : Except δ α} {g : δ → ε}
    (h : ∀ a, x = .ok a → Q a) : (Prog.ofExcept (x.mapError g) : Prog R ε α).Yields answers Q := by
  cases x with
  | ok a => exact h a rfl
  | error e => trivial

/-- What comes before does not matter. -/
theorem Yields.after {S : β → Prop} {p : Prog R ε α} {f : α → Prog R ε β}
    (hf : ∀ a, (f a).Yields answers S) : (p.bind f).Yields answers S :=
  Yields.bind (yields_true p) fun a _ => hf a

/-- What a pass over a list returns, element by element. -/
theorem Yields.each {Q : β → Prop} {f : α → Prog R ε β} {l : List α}
    (h : ∀ a ∈ l, (f a).Yields answers Q) :
    (Prog.each f l).Yields answers fun bs => ∀ b ∈ bs, Q b := by
  induction l with
  | nil => exact fun b hb => absurd hb List.not_mem_nil
  | cons a rest ih =>
    refine Yields.bind (h a List.mem_cons_self) fun b hb => ?_
    refine Yields.bind (ih fun a' ha' => h a' (List.mem_cons_of_mem a ha')) fun bs hbs => ?_
    intro b' hb'
    rcases List.mem_cons.mp hb' with rfl | hb'
    · exact hb
    · exact hbs b' hb'

/-- **A loop adds at most what its turns add.** -/
theorem Yields.fold_le {f : σ → α → Prog R ε σ} (potential : σ → Nat) (cost : α → Nat)
    {l : List α} {s : σ} (h : ∀ s, ∀ a ∈ l,
      (f s a).Yields answers fun s' => potential s' ≤ potential s + cost a) :
    (Prog.fold f s l).Yields answers fun s' => potential s' ≤ potential s + (l.map cost).sum := by
  induction l generalizing s with
  | nil => exact Nat.le_refl _
  | cons a rest ih =>
    refine Yields.bind (h s a List.mem_cons_self) fun s' hs' => ?_
    refine Yields.mono (ih fun s b hb => h s b (List.mem_cons_of_mem a hb)) fun s'' hs'' => ?_
    rw [List.map_cons, List.sum_cons]
    omega

/-- What a run returns, where its handler replies as allowed. -/
theorem of_run {Q : α → Prop} {p : Prog R ε α} (hp : p.Yields answers Q) {h : Handler R}
    (hanswers : ∀ past e, answers e (h past e)) {past : List (Sigma R)} {a : α}
    (hrun : p.run h past = .ok a) : Q a := by
  induction p generalizing past with
  | ret b =>
    obtain rfl : b = a := Except.ok.inj hrun
    exact hp
  | raise e => cases hrun
  | act e k ih => exact ih _ (hp _ (hanswers past e)) hrun

/-! ## What a program raises -/

/-- Whatever the replies among `answers`, what is raised satisfies `Q`. -/
def Raises (answers : (e : E) → R e → Prop) (Q : ε → Prop) : Prog R ε α → Prop
  | .ret _ => True
  | .raise e => Q e
  | .act e k => ∀ r, answers e r → (k r).Raises answers Q

theorem Raises.bind {Q : ε → Prop} {P : α → Prop} {p : Prog R ε α} {f : α → Prog R ε β}
    (h : p.Raises answers Q) (hp : p.Yields answers P)
    (hf : ∀ a, P a → (f a).Raises answers Q) : (p.bind f).Raises answers Q := by
  induction p with
  | ret a => exact hf a hp
  | raise e => exact h
  | act e k ih => exact fun r hr => ih r (h r hr) (hp r hr)

theorem Raises.ofExcept {Q : ε → Prop} {x : Except ε α} (h : ∀ e, x = .error e → Q e) :
    (Prog.ofExcept x : Prog R ε α).Raises answers Q := by
  cases x with
  | ok a => trivial
  | error e => exact h e rfl

theorem Raises.ofExcept_mapError {δ : Type} {Q : ε → Prop} {x : Except δ α} {g : δ → ε}
    (h : ∀ e, x = .error e → Q (g e)) :
    (Prog.ofExcept (x.mapError g) : Prog R ε α).Raises answers Q := by
  cases x with
  | ok a => trivial
  | error e => exact h e rfl

/-- What the first part returns does not matter. -/
theorem Raises.after {Q : ε → Prop} {p : Prog R ε α} {f : α → Prog R ε β}
    (h : p.Raises answers Q) (hf : ∀ a, (f a).Raises answers Q) : (p.bind f).Raises answers Q :=
  Raises.bind h (yields_true p) fun a _ => hf a

theorem Raises.each {Q : ε → Prop} {f : α → Prog R ε β} {l : List α}
    (h : ∀ a ∈ l, (f a).Raises answers Q) : (Prog.each f l).Raises answers Q := by
  induction l with
  | nil => trivial
  | cons a rest ih =>
    refine Raises.after (h a List.mem_cons_self) fun b => ?_
    exact Raises.after (ih fun a' ha' => h a' (List.mem_cons_of_mem a ha')) fun bs => trivial

theorem Raises.fold {Q : ε → Prop} {f : σ → α → Prog R ε σ} {l : List α} {s : σ}
    (h : ∀ s, ∀ a ∈ l, (f s a).Raises answers Q) : (Prog.fold f s l).Raises answers Q := by
  induction l generalizing s with
  | nil => trivial
  | cons a rest ih =>
    refine Raises.after (h s a List.mem_cons_self) fun s' => ?_
    exact ih fun s b hb => h s b (List.mem_cons_of_mem a hb)

/-- What a run raised, where its handler replies as allowed. -/
theorem raised_of_run {Q : ε → Prop} {p : Prog R ε α} (hp : p.Raises answers Q) {h : Handler R}
    (hanswers : ∀ past e, answers e (h past e)) {past : List (Sigma R)} {e : ε}
    (hrun : p.run h past = .error e) : Q e := by
  induction p generalizing past with
  | ret a => cases hrun
  | raise e' =>
    obtain rfl : e' = e := Except.error.inj hrun
    exact hp
  | act e' k ih => exact ih _ (hp _ (hanswers past e')) hrun

end Prog
