/-
# Answers given to those who wait

Something that asks waits until an answer with its key comes; an answer goes to the first that waits
with its key, and is lost where none does.

While no more answers of a key have come than there are askers of it, none is lost: the answers of a
key are with its first askers, in order, and its other askers still wait (`answers_given`).
-/
import Mathlib.Data.List.Induction

namespace Apowerb.Lib

variable {α β κ : Type} [DecidableEq κ]

/-- What comes: something that asks, or an answer to a key. -/
inductive Turn (α β κ : Type)
  | ask (a : α)
  | answer (key : κ) (b : β)

/-- The first that waits with the key gets the answer. -/
def give (key : α → κ) (k : κ) (b : β) : List (α × Option β) → List (α × Option β)
  | [] => []
  | (a, some c) :: rest => (a, some c) :: give key k b rest
  | (a, none) :: rest =>
    if key a = k then (a, some b) :: rest else (a, none) :: give key k b rest

/-- What a turn makes of those who asked. -/
def Turn.take (key : α → κ) (state : List (α × Option β)) : Turn α β κ → List (α × Option β)
  | .ask a => state ++ [(a, none)]
  | .answer k b => give key k b state

/-- Those who asked, each with its answer, after some turns. -/
def givenTo (key : α → κ) (turns : List (Turn α β κ)) : List (α × Option β) :=
  turns.foldl (Turn.take key) []

/-- Those who asked. -/
def asks (turns : List (Turn α β κ)) : List α :=
  turns.filterMap fun
    | .ask a => some a
    | .answer .. => none

/-- The answers of a key. -/
def answersTo (k : κ) (turns : List (Turn α β κ)) : List β :=
  turns.filterMap fun
    | .ask _ => none
    | .answer l b => if l = k then some b else none

/-- Those who asked with a key. -/
def asksOf (key : α → κ) (k : κ) (turns : List (Turn α β κ)) : List α :=
  (asks turns).filter (key · = k)

/-- The state of those who asked with a key. -/
def ofKey (key : α → κ) (k : κ) (state : List (α × Option β)) : List (Option β) :=
  (state.filter (key ·.1 = k)).map (·.2)

/-! ## 1. One answer -/

theorem map_fst_give (key : α → κ) (k : κ) (b : β) (state : List (α × Option β)) :
    (give key k b state).map (·.1) = state.map (·.1) := by
  induction state with
  | nil => rfl
  | cons x rest ih =>
    obtain ⟨a, _ | c⟩ := x
    · by_cases h : key a = k
      · simp [give, h]
      · simpa [give, h] using ih
    · simpa [give] using ih

/-- The askers of another key are left as they are. -/
theorem ofKey_give_ne (key : α → κ) {k l : κ} (h : l ≠ k) (b : β) (state : List (α × Option β)) :
    ofKey key l (give key k b state) = ofKey key l state := by
  induction state with
  | nil => rfl
  | cons x rest ih =>
    unfold ofKey at ih ⊢
    obtain ⟨a, _ | c⟩ := x
    · by_cases hk : key a = k
      · have hl : ¬ key a = l := fun hl => h (hl.symm.trans hk)
        simp [give, hk, hk ▸ hl]
      · by_cases hl : key a = l
        · subst hl
          simpa [give, hk] using ih
        · simpa [give, hk, hl] using ih
    · by_cases hl : key a = l
      · simpa [give, hl] using ih
      · simpa [give, hl] using ih

/-- The answer goes after those given before. -/
theorem ofKey_give (key : α → κ) {k : κ} (b : β) {state : List (α × Option β)} {given : List β}
    {n : ℕ} (h : ofKey key k state = given.map some ++ List.replicate (n + 1) none) :
    ofKey key k (give key k b state) = (given ++ [b]).map some ++ List.replicate n none := by
  induction state generalizing given with
  | nil =>
    have hlen := congrArg List.length h
    simp [ofKey] at hlen
  | cons x rest ih =>
    obtain ⟨a, o⟩ := x
    by_cases hk : key a = k
    · have hhead : ofKey key k ((a, o) :: rest) = o :: ofKey key k rest := by
        simp [ofKey, hk]
      rw [hhead] at h
      cases given with
      | nil =>
        rw [List.map_nil, List.nil_append, List.replicate_succ] at h
        obtain ⟨rfl, hrest⟩ := List.cons_eq_cons.mp h
        simpa [give, ofKey, hk] using hrest
      | cons c given =>
        rw [List.map_cons, List.cons_append] at h
        obtain ⟨rfl, hrest⟩ := List.cons_eq_cons.mp h
        have := ih hrest
        unfold ofKey at this
        simpa [give, ofKey, hk] using this
    · have hskip : ofKey key k ((a, o) :: rest) = ofKey key k rest := by
        simp [ofKey, hk]
      rw [hskip] at h
      have := ih h
      unfold ofKey at this
      cases o with
      | none => simpa [give, ofKey, hk] using this
      | some c => simpa [give, ofKey, hk] using this

/-! ## 2. All the turns -/

theorem asks_append (turns : List (Turn α β κ)) (t : Turn α β κ) :
    asks (turns ++ [t]) = asks turns ++ asks [t] := List.filterMap_append

theorem answersTo_append (k : κ) (turns : List (Turn α β κ)) (t : Turn α β κ) :
    answersTo k (turns ++ [t]) = answersTo k turns ++ answersTo k [t] := List.filterMap_append

theorem givenTo_append (key : α → κ) (turns : List (Turn α β κ)) (t : Turn α β κ) :
    givenTo key (turns ++ [t]) = Turn.take key (givenTo key turns) t := by
  simp [givenTo]

/-- Those who asked are there, in order. -/
theorem map_fst_givenTo (key : α → κ) (turns : List (Turn α β κ)) :
    (givenTo key turns).map (·.1) = asks turns := by
  induction turns using List.reverseRecOn with
  | nil => rfl
  | append_singleton turns t ih =>
    rw [givenTo_append, asks_append]
    cases t with
    | ask a => simp [Turn.take, asks, ih]
    | answer k b => simp [Turn.take, map_fst_give, ih, asks]

/-- **The answers of a key are with its first askers**, where each comes while one of them waits. -/
theorem answers_given (key : α → κ) (k : κ) {turns : List (Turn α β κ)}
    (h : ∀ before, before <+: turns →
      (answersTo k before).length ≤ (asksOf key k before).length) :
    ofKey key k (givenTo key turns) = (answersTo k turns).map some ++
      List.replicate ((asksOf key k turns).length - (answersTo k turns).length) none := by
  induction turns using List.reverseRecOn with
  | nil => rfl
  | append_singleton turns t ih =>
    have hle := h turns (List.prefix_append turns [t])
    have hlast := h (turns ++ [t]) (List.prefix_refl _)
    have ih := ih fun before hbefore => h before (hbefore.trans (List.prefix_append turns [t]))
    rw [givenTo_append]
    cases t with
    | ask a =>
      have hanswers : answersTo k (turns ++ [.ask a]) = answersTo k turns := by
        rw [answersTo_append]
        simp [answersTo]
      by_cases hk : key a = k
      · have hasks : asksOf key k (turns ++ [.ask a]) = asksOf key k turns ++ [a] := by
          unfold asksOf
          rw [asks_append]
          simp [asks, hk]
        have hstate : ofKey key k (Turn.take key (givenTo key turns) (.ask a)) =
            ofKey key k (givenTo key turns) ++ [none] := by
          simp [ofKey, Turn.take, hk]
        rw [hstate, ih, hanswers, hasks, List.length_append, List.length_singleton,
          Nat.sub_add_comm hle, List.replicate_succ', List.append_assoc]
      · have hasks : asksOf key k (turns ++ [.ask a]) = asksOf key k turns := by
          unfold asksOf
          rw [asks_append]
          simp [asks, hk]
        have hstate : ofKey key k (Turn.take key (givenTo key turns) (.ask a)) =
            ofKey key k (givenTo key turns) := by
          simp [ofKey, Turn.take, hk]
        rw [hstate, ih, hanswers, hasks]
    | answer l b =>
      have hasks : asksOf key k (turns ++ [.answer l b]) = asksOf key k turns := by
        unfold asksOf
        rw [asks_append]
        simp [asks]
      by_cases hl : l = k
      · subst hl
        have hanswers : answersTo l (turns ++ [.answer l b]) = answersTo l turns ++ [b] := by
          rw [answersTo_append]
          simp [answersTo]
        rw [hanswers, hasks, List.length_append, List.length_singleton] at hlast
        have hwaits : (asksOf key l turns).length - (answersTo l turns).length =
            (asksOf key l turns).length - ((answersTo l turns).length + 1) + 1 := by omega
        rw [hwaits] at ih
        rw [hanswers, hasks, List.length_append, List.length_singleton]
        exact ofKey_give key b ih
      · have hanswers : answersTo k (turns ++ [.answer l b]) = answersTo k turns := by
          rw [answersTo_append]
          simp [answersTo, hl]
        rw [hanswers, hasks, ← ih]
        exact ofKey_give_ne key (Ne.symm hl) b _

/-! ## 3. Each has its own -/

/-- Everyone has its own exactly where it is so key by key. -/
theorem own_iff_ofKey (key : α → κ) (own : α → Option β) (state : List (α × Option β)) :
    (∀ x ∈ state, x.2 = own x.1) ↔
      ∀ k, ofKey key k state = ((state.map (·.1)).filter (key · = k)).map own := by
  have hkeys : ∀ k, ofKey key k state = ((state.map (·.1)).filter (key · = k)).map own ↔
      ∀ x ∈ state, key x.1 = k → x.2 = own x.1 := by
    intro k
    rw [List.filter_map, List.map_map]
    refine List.map_inj_left.trans ?_
    simp [List.mem_filter]
  constructor
  · intro h k
    exact (hkeys k).mpr fun x hx _ => h x hx
  · intro h x hx
    exact (hkeys (key x.1)).mp (h (key x.1)) x hx rfl

end Apowerb.Lib
