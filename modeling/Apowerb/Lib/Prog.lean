/-
# Programs that ask

A program returns, raises, or asks its surroundings something and goes on with the reply.  `R e`
is the type of the reply to `e`.  A program is data: what it may ask is read off it
(`Prog.All`), and a handler that answers every question runs it (`Prog.run`).

* `All.bind`, `All.each`, `All.fold`: what a composed program asks, its parts ask.
* `run_congr`: handlers that agree on what a program may ask run it the same.
* `asked_of_all`: what a run asked is among what the program may ask.
* `AtMost`: how often a program may ask a question of a kind.
* `exists_handler`: a handler that gives the replies of a script.
-/
import Mathlib.Init

/-- A program over the questions `E`, raising `ε` and returning `α`. -/
inductive Prog {E : Type} (R : E → Type) (ε α : Type)
  | ret (a : α)
  | raise (e : ε)
  | act (e : E) (k : R e → Prog R ε α)

namespace Prog

variable {E : Type} {R : E → Type} {ε α β σ : Type}

/-! ## 1. Composition -/

/-- Run `p`, then `f` on what it returned. -/
def bind : Prog R ε α → (α → Prog R ε β) → Prog R ε β
  | .ret a, f => f a
  | .raise e, _ => .raise e
  | .act e k, f => .act e fun r => (k r).bind f

instance : Monad (Prog R ε) where
  pure := .ret
  bind := .bind

@[simp] theorem ret_bind (a : α) (f : α → Prog R ε β) : (Prog.ret a >>= f) = f a := rfl

@[simp] theorem raise_bind (e : ε) (f : α → Prog R ε β) : (Prog.raise e >>= f) = .raise e := rfl

@[simp] theorem pure_eq_ret (a : α) : (pure a : Prog R ε α) = .ret a := rfl

theorem bind_ret (p : Prog R ε α) {f : α → Prog R ε α} (hf : ∀ a, f a = .ret a) :
    p.bind f = p := by
  induction p with
  | ret a => exact hf a
  | raise e => rfl
  | act e k ih => exact congrArg (Prog.act e) (funext ih)

/-- Ask, and return the reply. -/
def ask (e : E) : Prog R ε (R e) := .act e .ret

/-- A computation that asks nothing. -/
def ofExcept : Except ε α → Prog R ε α
  | .ok a => .ret a
  | .error e => .raise e

/-- Run `f` on each element in turn. -/
def each (f : α → Prog R ε β) : List α → Prog R ε (List β)
  | [] => .ret []
  | a :: rest => (f a).bind fun b => (each f rest).bind fun bs => .ret (b :: bs)

/-- Run `f` on each element in turn, passing a state along. -/
def fold (f : σ → α → Prog R ε σ) : σ → List α → Prog R ε σ
  | s, [] => .ret s
  | s, a :: rest => (f s a).bind fun s' => fold f s' rest

/-! ## 2. What a program may ask -/

/-- Every question that the program may ask satisfies `P`. -/
def All (P : E → Prop) : Prog R ε α → Prop
  | .ret _ => True
  | .raise _ => True
  | .act e k => P e ∧ ∀ r, (k r).All P

variable {P Q : E → Prop} {p : Prog R ε α} {f : α → Prog R ε β}

theorem All.mono (h : p.All P) (himp : ∀ e, P e → Q e) : p.All Q := by
  induction p with
  | ret a => trivial
  | raise e => trivial
  | act e k ih => exact ⟨himp e h.1, fun r => ih r (h.2 r)⟩

/-- What a sequence asks, one of its parts asks. -/
theorem All.bind (h : p.All P) (hf : ∀ a, (f a).All P) : (p.bind f).All P := by
  induction p with
  | ret a => exact hf a
  | raise e => trivial
  | act e k ih => exact ⟨h.1, fun r => ih r (h.2 r)⟩

theorem All.ask {e : E} (h : P e) : (Prog.ask e : Prog R ε (R e)).All P := ⟨h, fun _ => trivial⟩

theorem All.ofExcept (x : Except ε α) : (Prog.ofExcept x : Prog R ε α).All P := by
  cases x <;> trivial

/-- What follows a computation is run on what it returned. -/
theorem All.ofExcept_bind {x : Except ε α} (h : ∀ a, x = .ok a → (f a).All P) :
    ((Prog.ofExcept x : Prog R ε α).bind f).All P := by
  cases x with
  | ok a => exact h a rfl
  | error e => trivial

theorem All.each {l : List α} (h : ∀ a ∈ l, (f a).All P) : (Prog.each f l).All P := by
  induction l with
  | nil => trivial
  | cons a rest ih =>
    refine All.bind (h a List.mem_cons_self) fun b => All.bind ?_ fun bs => trivial
    exact ih fun a' ha' => h a' (List.mem_cons_of_mem a ha')

theorem All.fold {g : σ → α → Prog R ε σ} {l : List α} {s : σ}
    (h : ∀ s, ∀ a ∈ l, (g s a).All P) : (Prog.fold g s l).All P := by
  induction l generalizing s with
  | nil => trivial
  | cons a rest ih =>
    refine All.bind (h s a List.mem_cons_self) fun s' => ?_
    exact ih fun s a' ha' => h s a' (List.mem_cons_of_mem a ha')

/-! ## 3. Running -/

/-- What answers the questions of a program; the answer may depend on those asked before. -/
abbrev Handler (R : E → Type) := List (Sigma R) → (e : E) → R e

/-- Run a program after the questions `past`. -/
def run (h : Handler R) : List (Sigma R) → Prog R ε α → Except ε α
  | _, .ret a => .ok a
  | _, .raise e => .error e
  | past, .act e k => (k (h past e)).run h (past ++ [⟨e, h past e⟩])

/-- The questions that a run asks, in order. -/
def asked (h : Handler R) : List (Sigma R) → Prog R ε α → List E
  | _, .ret _ => []
  | _, .raise _ => []
  | past, .act e k => e :: (k (h past e)).asked h (past ++ [⟨e, h past e⟩])

/-- **Handlers that agree on what a program may ask run it the same.** -/
theorem run_congr {h h' : Handler R} {past : List (Sigma R)} (hall : p.All P)
    (hagree : ∀ past e, P e → h past e = h' past e) : p.run h past = p.run h' past := by
  induction p generalizing past with
  | ret a => rfl
  | raise e => rfl
  | act e k ih =>
    change (k (h past e)).run h (past ++ [⟨e, h past e⟩]) =
      (k (h' past e)).run h' (past ++ [⟨e, h' past e⟩])
    rw [← hagree past e hall.1]
    exact ih _ (hall.2 _)

/-- A program that ends on a computation that asks nothing. -/
theorem run_bind_ofExcept {h : Handler R} {past : List (Sigma R)} {f : α → Prog R ε β}
    {g : α → Except ε β} (hf : ∀ a, f a = ofExcept (g a)) :
    (p.bind f).run h past = (p.run h past).bind g := by
  induction p generalizing past with
  | ret a =>
    change (f a).run h past = g a
    rw [hf]
    cases g a <;> rfl
  | raise e => rfl
  | act e k ih => exact ih _

/-- **What a run asked, the program may ask.** -/
theorem asked_of_all {h : Handler R} {past : List (Sigma R)} (hall : p.All P) :
    ∀ e ∈ p.asked h past, P e := by
  induction p generalizing past with
  | ret a => exact fun _ he => absurd he List.not_mem_nil
  | raise e => exact fun _ he => absurd he List.not_mem_nil
  | act e k ih =>
    intro e' he'
    rcases List.mem_cons.mp he' with rfl | hrest
    · exact hall.1
    · exact ih _ (hall.2 _) e' hrest

/-! ## 4. How often a program asks -/

/-- On every way through the program, at most `k` questions satisfy `P`. -/
def AtMost (P : E → Prop) : Nat → Prog R ε α → Prop
  | _, .ret _ => True
  | _, .raise _ => True
  | k, .act e next =>
    (P e → 0 < k ∧ ∀ r, AtMost P (k - 1) (next r)) ∧ (¬ P e → ∀ r, AtMost P k (next r))

theorem AtMost.mono {k k' : Nat} (h : p.AtMost P k) (hle : k ≤ k') : p.AtMost P k' := by
  induction p generalizing k k' with
  | ret a => trivial
  | raise e => trivial
  | act e next ih =>
    refine ⟨fun he => ?_, fun he r => ih r (h.2 he r) hle⟩
    obtain ⟨hpos, hnext⟩ := h.1 he
    exact ⟨Nat.lt_of_lt_of_le hpos hle, fun r => ih r (hnext r) (Nat.sub_le_sub_right hle 1)⟩

/-- A program that asks nothing of the kind. -/
theorem All.atMost (h : p.All fun e => ¬ P e) (k : Nat) : p.AtMost P k := by
  induction p with
  | ret a => trivial
  | raise e => trivial
  | act e next ih => exact ⟨fun he => absurd he h.1, fun _ r => ih r (h.2 r)⟩

/-- Before: what asks nothing of the kind. -/
theorem AtMost.bind_of_all {k : Nat} (h : p.All fun e => ¬ P e) (hf : ∀ a, (f a).AtMost P k) :
    (p.bind f).AtMost P k := by
  induction p with
  | ret a => exact hf a
  | raise e => trivial
  | act e next ih => exact ⟨fun he => absurd he h.1, fun _ r => ih r (h.2 r)⟩

/-- After: what asks nothing of the kind. -/
theorem AtMost.bind_all {k : Nat} (h : p.AtMost P k) (hf : ∀ a, (f a).All fun e => ¬ P e) :
    (p.bind f).AtMost P k := by
  induction p generalizing k with
  | ret a => exact (hf a).atMost k
  | raise e => trivial
  | act e next ih =>
    refine ⟨fun he => ?_, fun he r => ih r (h.2 he r)⟩
    obtain ⟨hpos, hnext⟩ := h.1 he
    exact ⟨hpos, fun r => ih r (hnext r)⟩

/-! ## 5. Scripts -/

/-- The handler gives the replies of the script. -/
def Follows (h : Handler R) (script : List (Sigma R)) : Prop :=
  ∀ past e r rest, script = past ++ ⟨e, r⟩ :: rest → h past e = r

theorem Follows.of_append {h : Handler R} {script more : List (Sigma R)}
    (hfollows : Follows h (script ++ more)) : Follows h script := by
  intro past e r rest hscript
  refine hfollows past e r (rest ++ more) ?_
  rw [hscript, List.append_assoc, List.cons_append]

/-- The next reply of the script. -/
theorem Follows.next {h : Handler R} {script : List (Sigma R)} {e : E} {r : R e}
    (hfollows : Follows h (script ++ [⟨e, r⟩])) : h script e = r :=
  hfollows script e r [] rfl

open Classical in
/-- **Some handler gives the replies of a script.** -/
theorem exists_handler (default : (e : E) → R e) (script : List (Sigma R)) :
    ∃ h : Handler R, Follows h script := by
  refine ⟨fun past e => if h : ∃ r rest, script = past ++ ⟨e, r⟩ :: rest then h.choose
    else default e, ?_⟩
  intro past e r rest hscript
  have hexists : ∃ r rest, script = past ++ ⟨e, r⟩ :: rest := ⟨r, rest, hscript⟩
  refine (dif_pos hexists).trans ?_
  obtain ⟨rest', hrest⟩ := hexists.choose_spec
  have hsame := List.append_cancel_left (hrest.symm.trans hscript)
  exact eq_of_heq (Sigma.mk.inj (List.cons.inj hsame).1).2

end Prog
