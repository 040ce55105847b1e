/-
# Lines

A text is cut into lines at the characters that end one; a carriage return and the line feed after it
are one end.  What counts as an end differs from reader to reader: two characters for a stream of
server-sent events, ten for Python's `str.splitlines`.

* `cut_refine`: a reader with more ends sees the beginning of every line of one with fewer, up to the
  first end that the other does not know.
-/
import Mathlib.Data.List.Basic

namespace Lines

/-- `str.splitlines`, for the characters that count as ends; both `\r` and `\n` do. -/
def cut (ends : Char → Bool) : List Char → List (List Char)
  | [] => []
  | c :: rest =>
    if c = '\r' ∧ rest.head? = some '\n' then cut ends rest
    else if ends c then [] :: cut ends rest
    else match cut ends rest with
      | [] => [[c]]
      | line :: lines => (c :: line) :: lines

/-- The ends of `str.splitlines`. -/
def pythonEnd (c : Char) : Bool :=
  let n := c.toNat
  (10 ≤ n && n ≤ 13) || (0x1c ≤ n && n ≤ 0x1e) || n == 0x85 || n == 0x2028 || n == 0x2029

/-- The ends of a stream of server-sent events. -/
def eventEnd (c : Char) : Bool := c = '\n' || c = '\r'

variable {fine coarse : Char → Bool} {cs line : List Char} {lines : List (List Char)}

/-- The first line, and those after it. -/
theorem cut_refine_cons (hsub : ∀ c, coarse c = true → fine c = true) :
    (cut coarse cs = [] → cut fine cs = []) ∧
    ∀ line lines, cut coarse cs = line :: lines →
      ∃ more, cut fine cs = line.takeWhile (!fine ·) :: more ∧
        ∀ l ∈ lines, l.takeWhile (!fine ·) ∈ more := by
  induction cs with
  | nil => exact ⟨fun _ => rfl, fun _ _ h => by cases h⟩
  | cons c rest ih =>
    unfold cut
    by_cases hpair : c = '\r' ∧ rest.head? = some '\n'
    · simpa only [if_pos hpair] using ih
    simp only [if_neg hpair]
    by_cases hcoarse : coarse c = true
    · -- Both end a line here.
      simp only [if_pos hcoarse, if_pos (hsub c hcoarse)]
      refine ⟨fun h => (by cases h), fun line lines h => ?_⟩
      cases h
      refine ⟨_, rfl, fun l hl => ?_⟩
      cases hcut : cut coarse rest with
      | nil =>
        rw [hcut] at hl
        cases hl
      | cons first others =>
        obtain ⟨more, hmore, hothers⟩ := ih.2 first others hcut
        rw [hcut] at hl
        rw [hmore]
        rcases List.mem_cons.mp hl with rfl | hl
        · exact List.mem_cons_self ..
        · exact List.mem_cons_of_mem _ (hothers l hl)
    simp only [if_neg hcoarse]
    by_cases hfine : fine c = true
    · -- Only one does: the line of the other goes on.
      simp only [if_pos hfine]
      cases hcut : cut coarse rest with
      | nil =>
        refine ⟨fun h => (by cases h), fun line lines h => ?_⟩
        cases h
        exact ⟨cut fine rest, by simp [hfine], fun l hl => by cases hl⟩
      | cons first others =>
        refine ⟨fun h => (by cases h), fun line lines h => ?_⟩
        cases h
        obtain ⟨more, hmore, hothers⟩ := ih.2 first others hcut
        exact ⟨cut fine rest, by simp [hfine], fun l hl => by
          rw [hmore]
          exact List.mem_cons_of_mem _ (hothers l hl)⟩
    · simp only [if_neg hfine]
      cases hcut : cut coarse rest with
      | nil =>
        rw [ih.1 hcut]
        refine ⟨fun h => (by cases h), fun line lines h => ?_⟩
        cases h
        exact ⟨[], by simp [hfine], fun l hl => by cases hl⟩
      | cons first others =>
        obtain ⟨more, hmore, hothers⟩ := ih.2 first others hcut
        rw [hmore]
        refine ⟨fun h => (by cases h), fun line lines h => ?_⟩
        cases h
        exact ⟨more, by simp [hfine], hothers⟩

/-- **A reader with more ends sees the beginning of every line.** -/
theorem cut_refine (hsub : ∀ c, coarse c = true → fine c = true) (h : line ∈ cut coarse cs) :
    line.takeWhile (!fine ·) ∈ cut fine cs := by
  cases hcut : cut coarse cs with
  | nil =>
    rw [hcut] at h
    cases h
  | cons first others =>
    obtain ⟨more, hmore, hothers⟩ := (cut_refine_cons hsub).2 first others hcut
    rw [hcut] at h
    rw [hmore]
    rcases List.mem_cons.mp h with rfl | h
    · exact List.mem_cons_self ..
    · exact List.mem_cons_of_mem _ (hothers line h)

/-- What a line holds is in the text. -/
theorem subset_of_mem (h : line ∈ cut coarse cs) : ∀ c ∈ line, c ∈ cs := by
  induction cs generalizing line with
  | nil => cases h
  | cons c rest ih =>
    unfold cut at h
    split at h
    · exact fun b hb => List.mem_cons_of_mem _ (ih h b hb)
    · split at h
      · rcases List.mem_cons.mp h with rfl | h
        · intro b hb
          cases hb
        · exact fun b hb => List.mem_cons_of_mem _ (ih h b hb)
      · split at h
        · rw [List.mem_singleton.mp h]
          intro b hb
          rw [List.mem_singleton.mp hb]
          exact List.mem_cons_self ..
        · rename_i first others hcut
          rcases List.mem_cons.mp h with rfl | h
          · intro b hb
            rcases List.mem_cons.mp hb with rfl | hb
            · exact List.mem_cons_self ..
            · exact List.mem_cons_of_mem _ (ih (by rw [hcut]; exact List.mem_cons_self ..) b hb)
          · intro b hb
            exact List.mem_cons_of_mem _ (ih (by rw [hcut]; exact List.mem_cons_of_mem _ h) b hb)

/-- A line holds none of the ends. -/
theorem not_end_of_mem (h : line ∈ cut coarse cs) :
    ∀ c ∈ line, coarse c = false := by
  induction cs generalizing line with
  | nil => cases h
  | cons c rest ih =>
    unfold cut at h
    split at h
    · exact ih h
    · split at h
      · rcases List.mem_cons.mp h with rfl | h
        · intro b hb
          cases hb
        · exact ih h
      · rename_i hc
        split at h
        · rw [List.mem_singleton.mp h]
          intro b hb
          rw [List.mem_singleton.mp hb]
          exact Bool.eq_false_iff.mpr hc
        · rename_i first others hcut
          rcases List.mem_cons.mp h with rfl | h
          · intro b hb
            rcases List.mem_cons.mp hb with rfl | hb
            · exact Bool.eq_false_iff.mpr hc
            · exact ih (by rw [hcut]; exact List.mem_cons_self ..) b hb
          · exact ih (by rw [hcut]; exact List.mem_cons_of_mem _ h)

/-- A text that holds no end is one line. -/
theorem cut_of_not_end (hne : cs ≠ []) (h : ∀ c ∈ cs, c ≠ '\r' ∧ coarse c = false) :
    cut coarse cs = [cs] := by
  induction cs with
  | nil => exact absurd rfl hne
  | cons c rest ih =>
    obtain ⟨hreturn, hend⟩ := h c List.mem_cons_self
    rw [cut, if_neg fun hpair => hreturn hpair.1, if_neg (by rw [hend]; exact Bool.false_ne_true)]
    cases rest with
    | nil => rfl
    | cons d rest =>
      rw [ih (List.cons_ne_nil d rest) fun b hb => h b (List.mem_cons_of_mem c hb)]

/-- The first line of a text is what stands before the first end. -/
theorem cut_head (hne : cs ≠ []) (h : ∀ c ∈ cs, c ≠ '\r') :
    ∃ more, cut coarse cs = cs.takeWhile (!coarse ·) :: more := by
  induction cs with
  | nil => exact absurd rfl hne
  | cons c rest ih =>
    rw [cut, if_neg fun hpair => h c List.mem_cons_self hpair.1]
    by_cases hend : coarse c = true
    · refine ⟨cut coarse rest, ?_⟩
      rw [if_pos hend, List.takeWhile_cons_of_neg (by simp [hend])]
    · rw [if_neg hend, List.takeWhile_cons_of_pos (by simpa using hend)]
      cases rest with
      | nil => exact ⟨[], rfl⟩
      | cons d rest =>
        obtain ⟨more, hmore⟩ :=
          ih (List.cons_ne_nil d rest) fun b hb => h b (List.mem_cons_of_mem c hb)
        refine ⟨more, ?_⟩
        rw [hmore]

end Lines
