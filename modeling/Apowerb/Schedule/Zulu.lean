/-
# `Z` and `+00:00`

Code that was written before `fromisoformat` read a final `Z` puts `+00:00` in its place.  That the
two read alike is not plain: the reader of dates looks ahead, for a week followed by digits, and
the text is longer than it was.  `Carries` is what a reader needs of its look-ahead, and each part
of a date has it; `datetime?_zulu` is then a matter of where the offset begins.
-/
import Apowerb.Schedule.IsoFormat

namespace Apowerb.Schedule.Iso

/-! ## 1. Looking ahead -/

/-- `+00:00`. -/
def utc : List Char := ['+', '0', '0', ':', '0', '0']

/-- A reader whose look-ahead, if any, a final `Z` and `+00:00` answer alike, where something
stands before them. -/
def Carries {α : Type} (read : List Char → Option (α × List Char)) : Prop :=
  ∀ cs v rest, read cs = some (v, rest) →
    ∃ taken, cs = taken ++ rest ∧
      ∀ left, left ≠ [] → rest = left ++ ['Z'] →
        read (taken ++ left ++ utc) = some (v, left ++ utc)

theorem carries_map {α : Type} (v : Option α) : Carries fun cs => v.map (·, cs) := by
  rintro cs w rest h
  obtain ⟨w', rfl, hpair⟩ := Option.map_eq_some_iff.mp h
  cases hpair
  exact ⟨[], rfl, fun left _ _ => rfl⟩

theorem carries_number {α : Type} {n : Nat} (read : Nat → List Char → Option (α × List Char))
    (h : ∀ k, Carries (read k)) :
    Carries fun cs => (number? n 0 cs).bind fun (k, rest) => read k rest := by
  intro cs v rest hread
  obtain ⟨⟨k, mid⟩, hk, hmid⟩ := Option.bind_eq_some_iff.mp hread
  obtain ⟨ds, rfl, -, -, hds⟩ := of_number? hk
  obtain ⟨taken, rfl, htaken⟩ := h k mid v rest hmid
  refine ⟨ds ++ taken, by rw [List.append_assoc], ?_⟩
  intro left hleft hrest
  dsimp only
  rw [List.append_assoc, List.append_assoc, hds, Option.bind_some, ← List.append_assoc]
  exact htaken left hleft hrest

theorem carries_day (year month : Nat) : Carries (day? year month) :=
  carries_number (fun (day : Nat) rest => (ordinal? ⟨year, month, day⟩).map (·, rest))
    fun _ => carries_map _

/-- One digit is taken for the day of the week. -/
theorem of_weekday? {year week : Nat} {c : Char} {cs rest : List Char} {v : Int}
    (h : weekday? year week (c :: cs) = some (v, rest)) : rest = cs := by
  obtain ⟨⟨k, mid⟩, hk, hmid⟩ := Option.bind_eq_some_iff.mp h
  obtain ⟨w, -, hpair⟩ := Option.map_eq_some_iff.mp hmid
  cases hpair
  rw [number?, Option.ite_none_right_eq_some] at hk
  cases hk.2
  rfl

theorem weekday?_cons {year week : Nat} {c : Char} {cs : List Char} {v : Int}
    (h : weekday? year week (c :: cs) = some (v, cs)) (cs' : List Char) :
    weekday? year week (c :: cs') = some (v, cs') := by
  obtain ⟨⟨k, mid⟩, hk, hmid⟩ := Option.bind_eq_some_iff.mp h
  obtain ⟨w, hw, hpair⟩ := Option.map_eq_some_iff.mp hmid
  cases hpair
  rw [number?, Option.ite_none_right_eq_some] at hk
  unfold weekday?
  rw [number?, if_pos hk.1]
  cases hk.2
  rw [number?, Option.bind_some]
  dsimp only
  rw [hw]
  rfl

theorem carries_afterWeekDashed (year week : Nat) : Carries (afterWeekDashed? year week) := by
  intro cs v rest h
  unfold afterWeekDashed? at h
  split at h
  · rename_i d cs
    split at h
    · -- The hyphen separates: what follows it is two characters at least, before the `Z`.
      rename_i hhour
      obtain ⟨w, hw, hpair⟩ := Option.map_eq_some_iff.mp h
      cases hpair
      refine ⟨[], rfl, ?_⟩
      intro left _ hrest
      match left, hrest with
      | [_], hrest =>
        cases hrest
        cases hhour
      | [_, _], hrest =>
        cases hrest
        cases hhour
      | _ :: _ :: e :: left, hrest =>
        cases hrest
        change afterWeekDashed? year week ('-' :: d :: (e :: left ++ utc)) = _
        rw [afterWeekDashed?,
          if_pos (show (e :: left ++ utc).head?.any Char.isDigit = true from hhour)]
        exact congrArg (Option.map _) hw
    · rename_i hhour
      cases of_weekday? h
      refine ⟨['-', d], rfl, ?_⟩
      intro left hleft hrest
      subst hrest
      cases left with
      | nil => exact absurd rfl hleft
      | cons e left =>
        change afterWeekDashed? year week ('-' :: d :: (e :: left ++ utc)) = _
        rw [afterWeekDashed?,
          if_neg (show ¬ (e :: left ++ utc).head?.any Char.isDigit = true from hhour)]
        exact weekday?_cons h _
  · rename_i hdash
    obtain ⟨w, hw, hpair⟩ := Option.map_eq_some_iff.mp h
    cases hpair
    refine ⟨[], rfl, ?_⟩
    intro left hleft hrest
    subst hrest
    have hmonday : ∀ rest', monday? year week rest' = some (v, rest') := by
      intro rest'
      unfold monday?
      rw [hw]
      rfl
    rw [List.nil_append]
    unfold afterWeekDashed?
    split
    · rename_i d rest' heq
      match left, hleft with
      | [r], _ =>
        cases heq
        exact absurd rfl (hdash 'Z' [])
      | r :: d :: left, _ =>
        cases heq
        exact absurd rfl (hdash d (left ++ ['Z']))
    · exact hmonday _

/-- The digits of a text go no further than a character that is none. -/
theorem takeWhile_digits (cs : List Char) :
    (cs ++ ['Z']).takeWhile Char.isDigit = (cs ++ utc).takeWhile Char.isDigit := by
  induction cs with
  | nil => rfl
  | cons c cs ih => simp [List.takeWhile_cons, ih]

theorem carries_afterWeek (year week : Nat) : Carries (afterWeek? year week) := by
  intro cs v rest h
  unfold afterWeek? at h
  dsimp only at h
  split at h
  · rename_i hrun
    obtain ⟨w, hw, hpair⟩ := Option.map_eq_some_iff.mp h
    cases hpair
    refine ⟨[], rfl, ?_⟩
    intro left _ hrest
    subst hrest
    rw [takeWhile_digits] at hrun
    rw [List.nil_append]
    unfold afterWeek?
    dsimp only
    rw [if_pos hrun]
    exact congrArg (Option.map _) hw
  · rename_i hrun
    cases cs with
    | nil => cases h
    | cons d cs =>
      cases of_weekday? h
      refine ⟨[d], rfl, ?_⟩
      intro left _ hrest
      subst hrest
      rw [← List.cons_append, takeWhile_digits] at hrun
      change afterWeek? year week (d :: left ++ utc) = _
      unfold afterWeek?
      dsimp only
      rw [if_neg hrun]
      exact weekday?_cons h _

/-- After digits, no mark of a week can be seen. -/
theorem afterYearDashed?_digits {year : Nat} {ds : List Char} (hdigits : ∀ c ∈ ds, c.isDigit = true)
    (hds : ds ≠ []) (rest : List Char) :
    afterYearDashed? year (ds ++ rest) = (number? 2 0 (ds ++ rest)).bind fun
      | (month, '-' :: rest) => day? year month rest
      | _ => none := by
  cases ds with
  | nil => exact absurd rfl hds
  | cons d ds =>
    unfold afterYearDashed?
    split
    · rename_i heq
      cases heq
      exact absurd (hdigits 'W' List.mem_cons_self) (by decide)
    · rfl

theorem carries_afterYearDashed (year : Nat) : Carries (afterYearDashed? year) := by
  intro cs v rest h
  unfold afterYearDashed? at h
  split at h
  · rename_i cs
    obtain ⟨taken, rfl, htaken⟩ := carries_number (afterWeekDashed? year)
      (carries_afterWeekDashed year) cs v rest h
    exact ⟨'W' :: taken, rfl, htaken⟩
  · obtain ⟨⟨month, mid⟩, hmonth, hmid⟩ := Option.bind_eq_some_iff.mp h
    obtain ⟨ds, rfl, hlength, hdigits, hread⟩ := of_number? hmonth
    split at hmid
    · rename_i month' mid heq
      cases heq
      obtain ⟨taken, rfl, htaken⟩ := carries_day year month mid v rest hmid
      refine ⟨ds ++ '-' :: taken, by rw [List.append_assoc, List.cons_append], ?_⟩
      intro left hleft hrest
      have hds : ds ≠ [] := by
        rintro rfl
        cases hlength
      rw [List.append_assoc, List.append_assoc, List.cons_append,
        afterYearDashed?_digits hdigits hds, hread, Option.bind_some, ← List.append_assoc]
      exact htaken left hleft hrest
    · cases hmid

/-- After digits, neither a hyphen nor the mark of a week can be seen. -/
theorem afterYear?_digits {year : Nat} {ds : List Char} (hdigits : ∀ c ∈ ds, c.isDigit = true)
    (hds : ds ≠ []) (rest : List Char) :
    afterYear? year (ds ++ rest) =
      (number? 2 0 (ds ++ rest)).bind fun (month, rest) => day? year month rest := by
  cases ds with
  | nil => exact absurd rfl hds
  | cons d ds =>
    unfold afterYear?
    split
    · rename_i heq
      cases heq
      exact absurd (hdigits '-' List.mem_cons_self) (by decide)
    · rename_i heq
      cases heq
      exact absurd (hdigits 'W' List.mem_cons_self) (by decide)
    · rfl

theorem carries_afterYear (year : Nat) : Carries (afterYear? year) := by
  intro cs v rest h
  unfold afterYear? at h
  split at h
  · rename_i cs
    obtain ⟨taken, rfl, htaken⟩ := carries_afterYearDashed year cs v rest h
    exact ⟨'-' :: taken, rfl, htaken⟩
  · rename_i cs
    obtain ⟨taken, rfl, htaken⟩ := carries_number (afterWeek? year)
      (carries_afterWeek year) cs v rest h
    exact ⟨'W' :: taken, rfl, htaken⟩
  · obtain ⟨⟨month, mid⟩, hmonth, hmid⟩ := Option.bind_eq_some_iff.mp h
    obtain ⟨ds, rfl, hlength, hdigits, hread⟩ := of_number? hmonth
    obtain ⟨taken, rfl, htaken⟩ := carries_day year month mid v rest hmid
    refine ⟨ds ++ taken, by rw [List.append_assoc], ?_⟩
    intro left hleft hrest
    have hds : ds ≠ [] := by
      rintro rfl
      cases hlength
    rw [List.append_assoc, List.append_assoc, afterYear?_digits hdigits hds, hread,
      Option.bind_some, ← List.append_assoc]
    exact htaken left hleft hrest

theorem carries_date : Carries date? := carries_number afterYear? carries_afterYear

/-! ## 2. Where an offset begins -/

/-- What a time is written with. -/
def isMark (c : Char) : Bool := c.isDigit || c == ':' || c == '.' || c == ','

theorem marks_append {ds rest : List Char} (hdigits : ∀ c ∈ ds, c.isDigit = true)
    (hrest : ∀ c ∈ rest, isMark c = true) : ∀ c ∈ ds ++ rest, isMark c = true := by
  intro c hc
  rcases List.mem_append.mp hc with hc | hc
  · simp [isMark, hdigits c hc]
  · exact hrest c hc

theorem marks_cons {m : Char} {rest : List Char} (hm : isMark m = true)
    (hrest : ∀ c ∈ rest, isMark c = true) : ∀ c ∈ m :: rest, isMark c = true := by
  intro c hc
  rcases List.mem_cons.mp hc with rfl | hc
  · exact hm
  · exact hrest c hc

theorem of_fraction? {cs : List Char} {micro : Nat} (h : fraction? cs = some micro) :
    ∀ c ∈ cs, isMark c = true := by
  cases cs with
  | nil => simp
  | cons mark ds =>
    unfold fraction? at h
    dsimp only at h
    rw [Option.ite_none_right_eq_some] at h
    obtain ⟨⟨hmark, -, hdigits⟩, -⟩ := h
    refine marks_cons ?_ ?_
    · rcases hmark with rfl | rfl <;> rfl
    · intro c hc
      simp [isMark, List.all_eq_true.mp hdigits c hc]

theorem of_seconds? {hour minute : Nat} {cs : List Char} {c : Clock}
    (h : seconds? hour minute cs = some c) : ∀ c ∈ cs, isMark c = true := by
  obtain ⟨⟨second, rest⟩, hsecond, hrest⟩ := Option.bind_eq_some_iff.mp h
  obtain ⟨ds, rfl, -, hdigits, -⟩ := of_number? hsecond
  obtain ⟨micro, hmicro, -⟩ := Option.map_eq_some_iff.mp hrest
  exact marks_append hdigits (of_fraction? hmicro)

theorem of_minutesColon? {hour : Nat} {cs : List Char} {c : Clock}
    (h : minutesColon? hour cs = some c) : ∀ c ∈ cs, isMark c = true := by
  obtain ⟨⟨minute, rest⟩, hminute, hrest⟩ := Option.bind_eq_some_iff.mp h
  obtain ⟨ds, rfl, -, hdigits, -⟩ := of_number? hminute
  refine marks_append hdigits ?_
  split at hrest
  · rename_i heq
    cases heq
    simp
  · rename_i heq
    cases heq
    exact marks_cons rfl (of_seconds? hrest)
  · cases hrest

theorem of_minutes? {hour : Nat} {cs : List Char} {c : Clock}
    (h : minutes? hour cs = some c) : ∀ c ∈ cs, isMark c = true := by
  obtain ⟨⟨minute, rest⟩, hminute, hrest⟩ := Option.bind_eq_some_iff.mp h
  obtain ⟨ds, rfl, -, hdigits, -⟩ := of_number? hminute
  refine marks_append hdigits ?_
  split at hrest
  · rename_i heq
    cases heq
    simp
  · rename_i heq
    cases heq
    exact of_seconds? hrest

theorem of_clock? {cs : List Char} {c : Clock} (h : clock? cs = some c) :
    ∀ c ∈ cs, isMark c = true := by
  obtain ⟨⟨hour, rest⟩, hhour, hrest⟩ := Option.bind_eq_some_iff.mp h
  obtain ⟨ds, rfl, -, hdigits, -⟩ := of_number? hhour
  refine marks_append hdigits ?_
  split at hrest
  · rename_i heq
    cases heq
    simp
  · rename_i heq
    cases heq
    exact marks_cons rfl (of_minutesColon? hrest)
  · rename_i heq
    cases heq
    exact of_minutes? hrest

/-- A `Z` is the whole of its offset. -/
theorem offset?_Z {cs : List Char} {o : Option Int}
    (h : offset? (cs ++ ['Z']) = some o) : cs = [] ∧ o = some 0 := by
  unfold offset? at h
  split at h
  · rename_i heq
    exact absurd heq (by simp)
  · rename_i heq
    cases h
    exact ⟨by simpa using heq, rfl⟩
  · rename_i sign tail hZ heq
    cases cs with
    | nil =>
      cases heq
      exact absurd rfl (hZ rfl)
    | cons c cs =>
      cases heq
      rw [Option.ite_none_right_eq_some] at h
      obtain ⟨clock, hclock, -⟩ := Option.bind_eq_some_iff.mp h.2
      exact absurd (of_clock? hclock 'Z' (by simp)) (by decide)

/-- A suffix of a text that ends so ends so. -/
theorem exists_left {cs taken rest : List Char} {last : Char} (h : cs ++ [last] = taken ++ rest)
    (hrest : rest ≠ []) : ∃ left, rest = left ++ [last] ∧ cs = taken ++ left := by
  obtain ⟨left, z, rfl⟩ : ∃ left z, rest = left ++ [z] :=
    ⟨rest.dropLast, rest.getLast hrest, (List.dropLast_concat_getLast hrest).symm⟩
  rw [← List.append_assoc] at h
  obtain ⟨rfl, hlast⟩ := List.append_inj' h rfl
  cases hlast
  exact ⟨left, rfl, rfl⟩

/-- **A final `Z` reads as `+00:00`.** -/
theorem datetime?_zulu {cs : List Char} {wall offset : Int}
    (h : datetime? (cs ++ ['Z']) = some (wall, some offset)) :
    offset = 0 ∧ datetime? (cs ++ utc) = some (wall, some 0) := by
  obtain ⟨⟨ordinal, rest⟩, hdate, hrest⟩ := Option.bind_eq_some_iff.mp h
  obtain ⟨taken, hcs, htaken⟩ := carries_date _ _ _ hdate
  split at hrest
  · cases hrest
  · rename_i sep time heq
    cases heq
    obtain ⟨clock, hclock, hzone⟩ := Option.bind_eq_some_iff.mp hrest
    obtain ⟨o, ho, hpair⟩ := Option.map_eq_some_iff.mp hzone
    obtain ⟨left, hleft, rfl⟩ := exists_left hcs (List.cons_ne_nil sep time)
    cases left with
    | nil =>
      cases hleft
      cases hclock
    | cons c left =>
      cases hleft
      have hdrop : (left ++ ['Z']).dropWhile (fun c => !isZone c) =
          left.dropWhile (fun c => !isZone c) ++ ['Z'] := by
        rw [List.dropWhile_append]
        split
        · rename_i hempty
          rw [List.isEmpty_iff.mp hempty]
          rfl
        · rfl
      rw [List.append_eq, hdrop] at ho
      obtain ⟨hplain, rfl⟩ := offset?_Z ho
      have hall : ∀ c ∈ left, (!isZone c) = true := List.dropWhile_eq_nil_iff.mp hplain
      cases hpair
      refine ⟨rfl, ?_⟩
      have hread := htaken (sep :: left) (List.cons_ne_nil _ _) rfl
      have htime : ∀ zone : List Char, (left ++ zone).takeWhile (fun c => !isZone c) =
          left ++ zone.takeWhile fun c => !isZone c :=
        fun zone => List.takeWhile_append_of_pos hall
      have hzone' : ∀ zone : List Char, (left ++ zone).dropWhile (fun c => !isZone c) =
          zone.dropWhile fun c => !isZone c :=
        fun zone => List.dropWhile_append_of_pos hall
      rw [List.append_eq, htime] at hclock
      unfold datetime?
      rw [hread, Option.bind_some]
      change ((timeOfDay? ((left ++ utc).takeWhile fun c => !isZone c)).bind _) = _
      rw [htime]
      change ((timeOfDay? (left ++ [])).bind _) = _
      rw [show timeOfDay? (left ++ []) = some clock from hclock, Option.bind_some]
      change (offset? ((left ++ utc).dropWhile fun c => !isZone c)).map _ = _
      rw [hzone']
      rfl

end Apowerb.Schedule.Iso
