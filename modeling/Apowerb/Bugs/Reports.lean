/-
# Bug reports of one defect

`create_bug_report` (`bug_reports/service.py`) attaches a report to the open one with its
fingerprint, where there is one, and counts it there.  `close_with_duplicates`
(`bug_reports/tracking.py`) closes a report with those attached to it, and returns the notices for
their authors, which are sent after the commit.

Each call reads, and writes at its commit what it made of what it read.  Nothing is locked in
between, so that two calls may each find no open report, count the same one, miss a report that is
attached meanwhile, or both tell an author.  A report whose status is `duplicate` is closed, and is
still FOUND by a creation.

* `reports_together`: in a run where every commit still finds what its call read, and no report is
  attached to a closed one (`Calm`), the reports of one defect stay together (`Together`).

The fingerprint and the title are given; what is redacted and stored beside them, and the journal of
events, is not read here.
-/
import Apowerb.Text
import Apowerb.Lib.Runs
import Mathlib.Data.PNat.Basic

namespace Apowerb.Bugs

open Runs

/-! ## 1. Reports and notices -/

/-- `BugReportStatus`. -/
inductive Status
  | new
  | triaged
  | issueCreated
  | duplicate
  | rejected
  | resolved
  deriving DecidableEq

/-- `CLOSED_STATUSES`. -/
def Status.closed : Status → Bool
  | .resolved | .rejected | .duplicate => true
  | .new | .triaged | .issueCreated => false

/-- A primary key, from one. -/
abbrev UserId := ℕ+

/-- A row of `bug_reports`. -/
structure Report where
  id : Nat
  userId : Option UserId
  title : String
  status : Status
  fingerprint : String
  occurrences : Nat
  duplicateOf : Option Nat
  adminNote : Option String
  deriving DecidableEq

structure Notice where
  userId : UserId
  title : String
  message : String
  type : String

/-- `closure_notice`. -/
def closureNotice (r : Report) (toStatus : Status) (actor : Option UserId) : Option Notice :=
  match r.userId with
  | none => none
  | some author =>
    if !toStatus.closed || r.status.closed || actor = some author then none
    else
      let number := "#" ++ toString r.id
      let subject := "« " ++ r.title ++ " »"
      match toStatus, r.duplicateOf with
      | .resolved, _ =>
        some ⟨author, "Votre signalement " ++ number ++ " est corrigé",
          subject ++ " est marqué corrigé.", "success"⟩
      | .rejected, _ =>
        let note := Text.strip (r.adminNote.getD "")
        some ⟨author, "Votre signalement " ++ number ++ " a été examiné",
          subject ++ " a été examiné et ne sera pas traité comme un bug." ++
            (if note = "" then "" else "\n\nNote : " ++ note), "info"⟩
      | _, some original =>
        let original := toString original
        some ⟨author,
          "Votre signalement " ++ number ++ " rejoint le #" ++ original ++ ", déjà suivi",
          subject ++ " décrit un problème déjà signalé, suivi sous le #" ++ original ++ ".", "info"⟩
      | _, none =>
        some ⟨author, "Votre signalement " ++ number ++ " est déjà suivi",
          subject ++ " décrit un problème déjà signalé.", "info"⟩

/-- The report that a creation attaches to: the first with the fingerprint that is not attached
itself, and neither resolved nor rejected. -/
def canonical (reports : List Report) (fingerprint : String) : Option Report :=
  ((reports.filter fun r => r.fingerprint = fingerprint && r.duplicateOf = none &&
    r.status ≠ .resolved && r.status ≠ .rejected).insertionSort (·.id ≤ ·.id)).head?

/-- The open reports that are attached to a report. -/
def openDuplicates (reports : List Report) (id : Nat) : List Report :=
  reports.filter fun r => r.duplicateOf = some id && !r.status.closed

/-- The canonical report counts one more than was read of it. -/
def countOne (c r : Report) : Report :=
  if r.id = c.id then
    { r with occurrences := (if c.occurrences = 0 then 1 else c.occurrences) + 1 }
  else r

def counted (reports : List Report) : Option Report → List Report
  | none => reports
  | some c => reports.map (countOne c)

/-- The report that a creation leaves. -/
def newReport (id : Nat) (userId : Option UserId) (title fingerprint : String)
    (c : Option Report) : Report :=
  ⟨id, userId, title, .new, fingerprint, 1, c.map (·.id), none⟩

/-- A report after a closure that writes the status of some, and the note of one. -/
def closeOne (ids : List Nat) (toStatus : Status) (noted : Nat) (note : Option String)
    (r : Report) : Report :=
  { r with
    status := if r.id ∈ ids then toStatus else r.status
    adminNote := if r.id = noted ∧ note.isSome then note else r.adminNote }

/-- The reports after a closure of a report, with those that were found attached to it: those that
have the status already are not written. -/
def closedAll (reports : List Report) (c : Report) (dups : List Report) (toStatus : Status)
    (note : Option String) : List Report :=
  let ids := ((c :: dups).filter (·.status ≠ toStatus)).map (·.id)
  reports.map (closeOne ids toStatus c.id note)

/-! ## 2. Calls -/

/-- Where a call stands, with what it read. -/
inductive Call
  | looked (userId : Option UserId) (title fingerprint : String) (c : Option Report)
  | opened (c : Report) (toStatus : Status) (actor : Option UserId) (note : Option String)
  | collected (c : Report) (dups : List Report) (toStatus : Status) (actor : Option UserId)
      (note : Option String)
  | done

/-- A report that a commit closed, and who did it. -/
structure Closed where
  report : Nat
  actor : Option UserId

/-- The reports and the calls; with the notices that were sent, each with its report, and the
closures so far. -/
structure State where
  reports : List Report
  calls : List Call
  sent : List (Nat × Notice)
  closures : List Closed

/-- A creation reads and commits; a closure, of triage or of the watch tick, reads the report, then
those attached to it, and commits. -/
inductive Event
  | look (userId : Option UserId) (title fingerprint : String)
  | file (i id : Nat)
  | openReport (id : Nat) (toStatus : Status) (actor : Option UserId) (note : Option String)
  | collect (i : Nat)
  | close (i : Nat)

/-- The reports of a closure that are open when it commits. -/
def closing (reports : List Report) (targets : List Report) (actor : Option UserId) : List Closed :=
  targets.filterMap fun x =>
    if (reports.find? (·.id = x.id)).any (!·.status.closed) then some ⟨x.id, actor⟩ else none

/-- The notices of a closure, each with its report. -/
def notices (targets : List Report) (toStatus : Status) (actor : Option UserId) :
    List (Nat × Notice) :=
  targets.filterMap fun x => (closureNotice x toStatus actor).map (x.id, ·)

def step (s : State) : Event → Option State
  | .look userId title fingerprint =>
    some { s with calls :=
      s.calls ++ [.looked userId title fingerprint (canonical s.reports fingerprint)] }
  | .file i id =>
    match s.calls[i]? with
    | some (.looked userId title fingerprint c) =>
      if id ∈ s.reports.map (·.id) then none
      else
        some { s with
          reports := counted s.reports c ++ [newReport id userId title fingerprint c]
          calls := s.calls.set i .done }
    | _ => none
  | .openReport id toStatus actor note =>
    match s.reports.find? (·.id = id) with
    | some c =>
      if toStatus.closed = true ∧ c.duplicateOf = none then
        some { s with calls :=
          s.calls ++ [.opened { c with adminNote := note <|> c.adminNote } toStatus actor note] }
      else none
    | none => none
  | .collect i =>
    match s.calls[i]? with
    | some (.opened c toStatus actor note) =>
      let dups := openDuplicates s.reports c.id
      some { s with calls := s.calls.set i (.collected c dups toStatus actor note) }
    | _ => none
  | .close i =>
    match s.calls[i]? with
    | some (.collected c dups toStatus actor note) =>
      some ⟨closedAll s.reports c dups toStatus note, s.calls.set i .done,
        s.sent ++ notices (c :: dups) toStatus actor,
        s.closures ++ closing s.reports (c :: dups) actor⟩
    | _ => none

def start (reports : List Report) : State := ⟨reports, [], [], []⟩

/-- A commit finds what its call read: for a creation the report to attach to, which is open; for a
closure the status of the report, and those attached to it. -/
def Calm (s : State) : Event → Prop
  | .file i _ =>
    match s.calls[i]? with
    | some (.looked _ _ fingerprint c) =>
      canonical s.reports fingerprint = c ∧ ∀ r ∈ c, r.status.closed = false
    | _ => True
  | .close i =>
    match s.calls[i]? with
    | some (.collected c dups _ _ _) =>
      (s.reports.find? (·.id = c.id)).map (·.status) = some c.status ∧
        openDuplicates s.reports c.id = dups
    | _ => True
  | _ => True

instance (s : State) : ∀ e, Decidable (Calm s e)
  | .file i _ =>
    match h : s.calls[i]? with
    | some (.looked _ _ fingerprint c) =>
      decidable_of_iff (canonical s.reports fingerprint = c ∧ ∀ r ∈ c, r.status.closed = false)
        (by simp only [Calm, h])
    | none | some (.opened _ _ _ _) | some (.collected _ _ _ _ _) | some .done =>
      .isTrue (by simp only [Calm, h])
  | .close i =>
    match h : s.calls[i]? with
    | some (.collected c dups _ _ _) =>
      decidable_of_iff ((s.reports.find? (·.id = c.id)).map (·.status) = some c.status ∧
        openDuplicates s.reports c.id = dups) (by simp only [Calm, h])
    | none | some (.opened _ _ _ _) | some (.looked _ _ _ _) | some .done =>
      .isTrue (by simp only [Calm, h])
  | .look _ _ _ | .openReport _ _ _ _ | .collect _ => .isTrue trivial

/-! ## 3. The reports -/

/-- The reports of a defect: one that is open and not attached, which counts those that are; and
none is open that is attached to a closed one. -/
structure Linked (reports : List Report) : Prop where
  ids : (reports.map (·.id)).Nodup
  single : ∀ r ∈ reports, ∀ r' ∈ reports, r.duplicateOf = none → r'.duplicateOf = none →
    r.status.closed = false → r'.status.closed = false → r.fingerprint = r'.fingerprint → r = r'
  counted : ∀ r ∈ reports, r.duplicateOf = none →
    r.occurrences = 1 + reports.countP (·.duplicateOf = some r.id)
  attached : ∀ r ∈ reports, ∀ id, r.duplicateOf = some id → ∃ c ∈ reports, c.id = id ∧
    c.duplicateOf = none ∧ (r.status.closed = false → c.status.closed = false)

section
variable (c r : Report)

@[simp] theorem countOne_id : (countOne c r).id = r.id := by unfold countOne; split <;> rfl

@[simp] theorem countOne_userId : (countOne c r).userId = r.userId := by
  unfold countOne; split <;> rfl

@[simp] theorem countOne_status : (countOne c r).status = r.status := by
  unfold countOne; split <;> rfl

@[simp] theorem countOne_fingerprint : (countOne c r).fingerprint = r.fingerprint := by
  unfold countOne; split <;> rfl

@[simp] theorem countOne_duplicateOf : (countOne c r).duplicateOf = r.duplicateOf := by
  unfold countOne; split <;> rfl

end

theorem of_canonical {reports : List Report} {fingerprint : String} {c : Report}
    (h : canonical reports fingerprint = some c) :
    c ∈ reports ∧ c.fingerprint = fingerprint ∧ c.duplicateOf = none := by
  have hmem := List.mem_of_head? h
  rw [List.mem_insertionSort, List.mem_filter] at hmem
  simp only [Bool.and_eq_true, decide_eq_true_eq] at hmem
  exact ⟨hmem.1, hmem.2.1.1.1, hmem.2.1.1.2⟩

theorem closed_of_canonical {reports : List Report} {fingerprint : String}
    (h : canonical reports fingerprint = none) {r : Report} (hr : r ∈ reports)
    (hfingerprint : r.fingerprint = fingerprint) (hown : r.duplicateOf = none) :
    r.status.closed = true := by
  have hnone := List.head?_eq_none_iff.mp h
  have hout : r ∉ (reports.filter fun r => r.fingerprint = fingerprint && r.duplicateOf = none &&
      r.status ≠ .resolved && r.status ≠ .rejected).insertionSort (·.id ≤ ·.id) := by
    rw [hnone]
    exact List.not_mem_nil
  rw [List.mem_insertionSort, List.mem_filter] at hout
  cases hstatus : r.status <;> simp_all [Status.closed]

variable {reports : List Report}

theorem Linked.eq_of_id (h : Linked reports) {r r' : Report} (hr : r ∈ reports) (hr' : r' ∈ reports)
    (hid : r.id = r'.id) : r = r' := List.inj_on_of_nodup_map h.ids hr hr' hid

/-- No report is attached to one that is not there. -/
theorem Linked.countP_new (h : Linked reports) {id : Nat} (hid : id ∉ reports.map (·.id)) :
    reports.countP (·.duplicateOf = some id) = 0 := by
  rw [List.countP_eq_zero]
  intro r hr hdup
  obtain ⟨c, hc, rfl, -⟩ := h.attached r hr id (of_decide_eq_true hdup)
  exact hid (List.mem_map_of_mem hc)

theorem nodup_ids_append {new : Report} (h : (reports.map (·.id)).Nodup)
    (hid : new.id ∉ reports.map (·.id)) : ((reports ++ [new]).map (·.id)).Nodup := by
  rw [List.map_append, List.nodup_append]
  refine ⟨h, List.nodup_singleton _, ?_⟩
  rintro _ hold _ hone rfl
  rw [List.mem_singleton.mp hone] at hold
  exact hid hold

/-- A report that nothing is attached to yet, where no open one has its fingerprint. -/
theorem Linked.file_own {id : Nat} {userId : Option UserId} {title fingerprint : String}
    (h : Linked reports) (hid : id ∉ reports.map (·.id))
    (hnone : canonical reports fingerprint = none) :
    Linked (reports ++ [newReport id userId title fingerprint none]) := by
  have hclosed {r : Report} (hr : r ∈ reports) (hown : r.duplicateOf = none)
      (hopen : r.status.closed = false) (hfingerprint : r.fingerprint = fingerprint) : False := by
    rw [closed_of_canonical hnone hr hfingerprint hown] at hopen
    cases hopen
  refine ⟨nodup_ids_append h.ids hid, ?_, ?_, ?_⟩
  · intro r hr r' hr' hown hown' hopen hopen' hsame
    rcases List.mem_append.mp hr with hr | hr <;> rcases List.mem_append.mp hr' with hr' | hr'
    · exact h.single r hr r' hr' hown hown' hopen hopen' hsame
    · rw [List.mem_singleton.mp hr'] at hsame
      exact (hclosed hr hown hopen hsame).elim
    · rw [List.mem_singleton.mp hr] at hsame
      exact (hclosed hr' hown' hopen' hsame.symm).elim
    · rw [List.mem_singleton.mp hr, List.mem_singleton.mp hr']
  · intro r hr hown
    rw [List.countP_append, List.countP_singleton]
    rcases List.mem_append.mp hr with hr | hr
    · simpa [newReport] using h.counted r hr hown
    · have hzero : reports.countP (·.duplicateOf =
          some (newReport id userId title fingerprint none).id) = 0 := h.countP_new hid
      rw [List.mem_singleton.mp hr, hzero]
      rfl
  · intro r hr i hdup
    rcases List.mem_append.mp hr with hr | hr
    · obtain ⟨c, hc, hc'⟩ := h.attached r hr i hdup
      exact ⟨c, List.mem_append_left _ hc, hc'⟩
    · rw [List.mem_singleton.mp hr] at hdup
      cases hdup

/-- A report that is attached to an open one, which counts it. -/
theorem Linked.file_attached {id : Nat} {userId : Option UserId} {title fingerprint : String}
    {c : Report} (h : Linked reports) (hid : id ∉ reports.map (·.id))
    (hfound : canonical reports fingerprint = some c) (hopen : c.status.closed = false) :
    Linked (reports.map (countOne c) ++ [newReport id userId title fingerprint (some c)]) := by
  obtain ⟨hc, -, hown⟩ := of_canonical hfound
  have hids : (reports.map (countOne c)).map (·.id) = reports.map (·.id) := by
    rw [List.map_map]
    exact List.map_congr_left fun r _ => countOne_id c r
  have hcount (i : Nat) : (reports.map (countOne c)).countP (·.duplicateOf = some i) =
      reports.countP (·.duplicateOf = some i) := by
    rw [List.countP_map]
    exact List.countP_congr fun r _ => by simp
  have hmem {r : Report}
      (hr : r ∈ reports.map (countOne c) ++ [newReport id userId title fingerprint (some c)]) :
      (∃ old ∈ reports, r = countOne c old) ∨
        r = newReport id userId title fingerprint (some c) := by
    rcases List.mem_append.mp hr with hr | hr
    · obtain ⟨old, hold, rfl⟩ := List.mem_map.mp hr
      exact .inl ⟨old, hold, rfl⟩
    · exact .inr (List.mem_singleton.mp hr)
  have hattached {r : Report} (hr : r = newReport id userId title fingerprint (some c)) :
      r.duplicateOf = some c.id := by
    rw [hr]
    rfl
  refine ⟨nodup_ids_append (hids ▸ h.ids) (hids ▸ hid), ?_, ?_, ?_⟩
  · intro r hr r' hr' hown' hown'' hopen' hopen'' hsame
    rcases hmem hr with ⟨old, hold, rfl⟩ | hnew
    · rcases hmem hr' with ⟨old', hold', rfl⟩ | hnew'
      · simp only [countOne_duplicateOf, countOne_status, countOne_fingerprint] at *
        rw [h.single old hold old' hold' hown' hown'' hopen' hopen'' hsame]
      · rw [hattached hnew'] at hown''
        cases hown''
    · rw [hattached hnew] at hown'
      cases hown'
  · intro r hr hown'
    rcases hmem hr with ⟨old, hold, rfl⟩ | hnew
    · rw [countOne_duplicateOf] at hown'
      rw [List.countP_append, hcount, List.countP_singleton, countOne_id]
      have hold' := h.counted old hold hown'
      by_cases hsame : old.id = c.id
      · obtain rfl := h.eq_of_id hold hc hsame
        simp only [countOne, if_true, newReport, Option.map_some]
        split <;> simp <;> omega
      · have hne : some c.id ≠ some old.id := fun heq => hsame (Option.some.inj heq).symm
        simpa [countOne, hsame, newReport, hne] using hold'
    · rw [hattached hnew] at hown'
      cases hown'
  · intro r hr i hdup
    rcases hmem hr with ⟨old, hold, rfl⟩ | hnew
    · rw [countOne_duplicateOf] at hdup
      obtain ⟨d, hd, hdid, hdown, hdopen⟩ := h.attached old hold i hdup
      exact ⟨countOne c d, List.mem_append_left _ (List.mem_map_of_mem hd), by simpa using hdid,
        by simpa using hdown, by simpa using hdopen⟩
    · rw [hattached hnew] at hdup
      refine ⟨countOne c c, List.mem_append_left _ (List.mem_map_of_mem hc), ?_,
        by simpa using hown, fun _ => by simpa using hopen⟩
      rw [countOne_id]
      exact Option.some.inj hdup

/-- A closure of a report with all that are attached to it and open. -/
theorem Linked.close {c : Report} {dups : List Report} {toStatus : Status} {note : Option String}
    (h : Linked reports) (hclosed : toStatus.closed = true)
    (hown : ∃ r ∈ reports, r.id = c.id ∧ r.duplicateOf = none)
    (hdups : openDuplicates reports c.id = dups) :
    Linked (closedAll reports c dups toStatus note) := by
  unfold closedAll
  dsimp only
  let ids := ((c :: dups).filter (·.status ≠ toStatus)).map (·.id)
  let f := closeOne ids toStatus c.id note
  have hstatus (r : Report) :
      (f r).status.closed = false ↔ r.id ∉ ids ∧ r.status.closed = false := by
    simp only [f, closeOne]
    split <;> simp_all
  have hwritten {r : Report} (hr : r ∈ reports) (hin : r.id ∈ ids) :
      r.id = c.id ∨ r.duplicateOf = some c.id := by
    obtain ⟨x, hx, hid⟩ := List.mem_map.mp hin
    rcases List.mem_cons.mp (List.mem_filter.mp hx).1 with rfl | hx
    · exact .inl hid.symm
    · rw [← hdups] at hx
      obtain ⟨hx, hdup⟩ := List.mem_filter.mp hx
      obtain rfl := h.eq_of_id hx hr hid
      simp only [Bool.and_eq_true, decide_eq_true_eq] at hdup
      exact .inr hdup.1
  refine ⟨?_, ?_, ?_, ?_⟩
  · rw [List.map_map]
    exact h.ids
  · intro r hr r' hr' hown hown' hopen hopen' hsame
    obtain ⟨old, hold, rfl⟩ := List.mem_map.mp hr
    obtain ⟨old', hold', rfl⟩ := List.mem_map.mp hr'
    rw [h.single old hold old' hold' hown hown' ((hstatus old).mp hopen).2
      ((hstatus old').mp hopen').2 hsame]
  · intro r hr hown
    obtain ⟨old, hold, rfl⟩ := List.mem_map.mp hr
    rw [List.countP_map]
    exact h.counted old hold hown
  · intro r hr i hdup
    obtain ⟨old, hold, rfl⟩ := List.mem_map.mp hr
    obtain ⟨d, hd, hdid, hdown, hdopen⟩ := h.attached old hold i hdup
    refine ⟨f d, List.mem_map_of_mem hd, hdid, hdown, fun hopen => (hstatus d).mpr ?_⟩
    obtain ⟨hout, hopen⟩ := (hstatus old).mp hopen
    refine ⟨fun hin => ?_, hdopen hopen⟩
    rcases hwritten hd hin with heq | hattached
    · -- the report is attached to the one that is closed, so that it was found, and is closed
      have hfound : old ∈ dups := by
        rw [← hdups]
        refine List.mem_filter.mpr ⟨hold, ?_⟩
        have hto : old.duplicateOf = some c.id := by rw [← heq, hdid]; exact hdup
        simp [hto, hopen]
      refine hout (List.mem_map.mpr ⟨old, List.mem_filter.mpr ⟨List.mem_cons_of_mem _ hfound, ?_⟩,
        rfl⟩)
      have hne : old.status ≠ toStatus := fun heq => by rw [heq, hclosed] at hopen; cases hopen
      simpa using hne
    · rw [hdown] at hattached
      cases hattached

/-! ## 4. The notices -/

/-- The author of an open report is told, if it is not who closes it. -/
theorem closureNotice_userId {r : Report} {toStatus : Status} {actor : Option UserId}
    (h : toStatus.closed = true) : (closureNotice r toStatus actor).map (·.userId) =
      if r.status.closed = false ∧ actor ≠ r.userId then r.userId else none := by
  unfold closureNotice
  cases hauthor : r.userId with
  | none => simp
  | some author =>
    cases hopen : r.status.closed with
    | true => simp
    | false =>
      by_cases hactor : actor = some author
      · simp [hactor]
      · simp only [h, hactor, Bool.not_true, Bool.or_false, decide_false, Bool.false_eq_true,
          if_false, ne_eq, not_false_eq_true, and_self, if_true]
        split <;> rfl

/-- A notice about a report to a user. -/
def about (id : Nat) (a : UserId) (p : Nat × Notice) : Bool := p.1 = id && p.2.userId = a

/-- A closure of a report by another than a user. -/
def byOther (id : Nat) (a : UserId) (c : Closed) : Bool := c.report = id && c.actor ≠ some a

/-- A closure tells the author of a report once if it closes it, and is not who closes. -/
theorem countP_notices {r : Report} {a : UserId} {targets : List Report} {toStatus : Status}
    {actor : Option UserId} (hr : reports.find? (·.id = r.id) = some r) (ha : r.userId = some a)
    (hclosed : toStatus.closed = true)
    (hread : ∀ x ∈ targets, x.id = r.id → x.userId = r.userId ∧ x.status = r.status) :
    (notices targets toStatus actor).countP (about r.id a) =
      (closing reports targets actor).countP (byOther r.id a) := by
  unfold notices closing
  rw [List.countP_filterMap, List.countP_filterMap]
  refine List.countP_congr fun x hx => ?_
  by_cases hid : x.id = r.id
  · obtain ⟨huser, hstatus⟩ := hread x hx hid
    have htold : (closureNotice x toStatus actor).map (·.userId) =
        if x.status.closed = false ∧ actor ≠ x.userId then x.userId else none :=
      closureNotice_userId hclosed
    rw [huser, ha, hstatus] at htold
    rw [hid, hr]
    cases hopen : r.status.closed with
    | true =>
      simp only [hopen, Bool.true_eq_false, false_and, if_false, Option.map_eq_none_iff] at htold
      simp [htold, hopen]
    | false =>
      by_cases hactor : actor = some a
      · simp only [hactor, ne_eq, not_true, and_false, if_false, Option.map_eq_none_iff] at htold
        simp [htold, hopen, hactor, byOther]
      · simp only [hopen, hactor, ne_eq, not_false_eq_true, and_self, if_true] at htold
        obtain ⟨n, hn, hna⟩ := Option.map_eq_some_iff.mp htold
        simp [hn, hna, hopen, hactor, byOther, about]
  · have hout (n : Notice) : about r.id a (x.id, n) = false := by simp [about, hid]
    have hout' : byOther r.id a ⟨x.id, actor⟩ = false := by simp [byOther, hid]
    split <;> cases closureNotice x toStatus actor <;> simp [hout, hout']

/-- What a call is about to close, and how. -/
def Call.closure? : Call → Option (Report × Status)
  | .opened c toStatus _ _ => some (c, toStatus)
  | .collected c _ toStatus _ _ => some (c, toStatus)
  | _ => none

structure Inv (s : State) : Prop where
  linked : Linked s.reports
  known : (∀ p ∈ s.sent, p.1 ∈ s.reports.map (·.id)) ∧
    ∀ c ∈ s.closures, c.report ∈ s.reports.map (·.id)
  told : ∀ r ∈ s.reports, ∀ a, r.userId = some a →
    s.sent.countP (about r.id a) = s.closures.countP (byOther r.id a)
  /-- a closure is of a report that is not attached -/
  read : ∀ call ∈ s.calls, ∀ p ∈ call.closure?, p.2.closed = true ∧
    ∃ r ∈ s.reports, r.id = p.1.id ∧ r.userId = p.1.userId ∧ r.duplicateOf = none

variable {s s' : State}

/-- The reports are as they were, and one of the calls reads. -/
theorem Inv.of_calls {calls : List Call} (h : Inv s)
    (hread : ∀ call ∈ calls, ∀ p ∈ call.closure?, p.2.closed = true ∧
      ∃ r ∈ s.reports, r.id = p.1.id ∧ r.userId = p.1.userId ∧ r.duplicateOf = none) :
    Inv { s with calls := calls } := ⟨h.linked, h.known, h.told, hread⟩

theorem Inv.look {userId : Option UserId} {title fingerprint : String} (h : Inv s)
    (hs : step s (.look userId title fingerprint) = some s') : Inv s' := by
  cases hs
  refine h.of_calls fun call hcall => ?_
  rcases List.mem_append.mp hcall with hcall | hcall
  · exact h.read call hcall
  · rw [List.mem_singleton.mp hcall]
    exact fun p hp => by cases hp

theorem Inv.openReport {id : Nat} {toStatus : Status} {actor : Option UserId}
    {note : Option String} (h : Inv s)
    (hs : step s (.openReport id toStatus actor note) = some s') : Inv s' := by
  simp only [step] at hs
  split at hs
  · next c hfind =>
    split at hs
    · next hclosed =>
      cases hs
      refine h.of_calls fun call hcall => ?_
      rcases List.mem_append.mp hcall with hcall | hcall
      · exact h.read call hcall
      · rw [List.mem_singleton.mp hcall]
        intro p hp
        cases hp
        exact ⟨hclosed.1, c, List.mem_of_find?_eq_some hfind, rfl, rfl, hclosed.2⟩
    · cases hs
  · cases hs

theorem Inv.collect {i : Nat} (h : Inv s) (hs : step s (.collect i) = some s') : Inv s' := by
  simp only [step] at hs
  split at hs
  · next c toStatus actor note hi =>
    cases hs
    refine h.of_calls fun call hcall => ?_
    rcases List.mem_or_eq_of_mem_set hcall with hcall | rfl
    · exact h.read call hcall
    · exact h.read (.opened c toStatus actor note) (List.mem_of_getElem? hi)
  · cases hs

/-- What is read of the reports stays, where what is written keeps who they are. -/
theorem Inv.read_map {calls : List Call} {i : Nat} (h : Inv s) {reports : List Report}
    (hkept : ∀ r ∈ s.reports, ∃ r' ∈ reports,
      r'.id = r.id ∧ r'.userId = r.userId ∧ r'.duplicateOf = r.duplicateOf)
    (hcalls : calls = s.calls.set i .done) :
    ∀ call ∈ calls, ∀ p ∈ call.closure?, p.2.closed = true ∧
      ∃ r ∈ reports, r.id = p.1.id ∧ r.userId = p.1.userId ∧ r.duplicateOf = none := by
  intro call hcall p hp
  rw [hcalls] at hcall
  rcases List.mem_or_eq_of_mem_set hcall with hcall | rfl
  · obtain ⟨hclosed, r, hr, hid, huser, hown⟩ := h.read call hcall p hp
    obtain ⟨r', hr', hid', huser', hown'⟩ := hkept r hr
    exact ⟨hclosed, r', hr', hid'.trans hid, huser'.trans huser, hown'.trans hown⟩
  · cases hp

/-- The reports of before are there after a creation, but for what one of them counts. -/
theorem mem_counted {c : Option Report} {r : Report} (hr : r ∈ reports) :
    ∃ r' ∈ counted reports c, r'.id = r.id ∧ r'.userId = r.userId ∧
      r'.duplicateOf = r.duplicateOf := by
  cases c with
  | none => exact ⟨r, hr, rfl, rfl, rfl⟩
  | some c =>
    exact ⟨countOne c r, List.mem_map_of_mem hr, countOne_id c r, countOne_userId c r,
      countOne_duplicateOf c r⟩

theorem of_mem_counted {c : Option Report} {r' : Report} (hr : r' ∈ counted reports c) :
    ∃ r ∈ reports, r'.id = r.id ∧ r'.userId = r.userId := by
  cases c with
  | none => exact ⟨r', hr, rfl, rfl⟩
  | some c =>
    obtain ⟨r, hold, rfl⟩ := List.mem_map.mp hr
    exact ⟨r, hold, countOne_id c r, countOne_userId c r⟩

theorem counted_ids (c : Option Report) :
    (counted reports c).map (·.id) = reports.map (·.id) := by
  cases c with
  | none => rfl
  | some c =>
    unfold counted
    rw [List.map_map]
    exact List.map_congr_left fun r _ => countOne_id c r

theorem Inv.file {i id : Nat} (h : Inv s) (hcalm : Calm s (.file i id))
    (hs : step s (.file i id) = some s') : Inv s' := by
  simp only [step] at hs
  split at hs
  · next userId title fingerprint c hi =>
    simp only [Calm, hi] at hcalm
    obtain ⟨hfound, hopen⟩ := hcalm
    split at hs
    · cases hs
    · next hid =>
      cases hs
      have hlinked : Linked (counted s.reports c ++ [newReport id userId title fingerprint c]) := by
        cases c with
        | none => exact h.linked.file_own hid hfound
        | some c => exact h.linked.file_attached hid hfound (hopen c rfl)
      have hids {i : Nat} (hi : i ∈ s.reports.map (·.id)) :
          i ∈ (counted s.reports c ++ [newReport id userId title fingerprint c]).map (·.id) := by
        rw [List.map_append, counted_ids]
        exact List.mem_append_left _ hi
      refine ⟨hlinked, ⟨fun p hp => hids (h.known.1 p hp), fun d hd => hids (h.known.2 d hd)⟩,
        ?_, ?_⟩
      · intro r hr a ha
        rcases List.mem_append.mp hr with hr | hr
        · obtain ⟨old, hold, hoid, houser⟩ := of_mem_counted hr
          rw [hoid]
          exact h.told old hold a (houser ▸ ha)
        · -- nothing was sent about the new report
          rw [List.mem_singleton.mp hr]
          have hsent : s.sent.countP (about id a) = 0 := by
            rw [List.countP_eq_zero]
            intro p hp habout
            simp only [about, Bool.and_eq_true, decide_eq_true_eq] at habout
            exact hid (habout.1 ▸ h.known.1 p hp)
          have hclosures : s.closures.countP (byOther id a) = 0 := by
            rw [List.countP_eq_zero]
            intro d hd hby
            simp only [byOther, Bool.and_eq_true, decide_eq_true_eq] at hby
            exact hid (hby.1 ▸ h.known.2 d hd)
          exact hsent.trans hclosures.symm
      · refine h.read_map (fun r hr => ?_) rfl
        obtain ⟨r', hr', hkept⟩ := mem_counted (c := c) hr
        exact ⟨r', List.mem_append_left _ hr', hkept⟩
  · cases hs

theorem Inv.close {i : Nat} (h : Inv s) (hcalm : Calm s (.close i))
    (hs : step s (.close i) = some s') : Inv s' := by
  simp only [step] at hs
  split at hs
  · next c dups toStatus actor note hi =>
    simp only [Calm, hi] at hcalm
    obtain ⟨hstatus, hdups⟩ := hcalm
    cases hs
    obtain ⟨hclosed, old, hold, hoid, houser, hown⟩ :=
      h.read _ (List.mem_of_getElem? hi) (c, toStatus) rfl
    have hids : (closedAll s.reports c dups toStatus note).map (·.id) = s.reports.map (·.id) := by
      unfold closedAll
      rw [List.map_map]
      rfl
    have hfind {r : Report} (hr : r ∈ s.reports) : s.reports.find? (·.id = r.id) = some r := by
      cases hfound : s.reports.find? (·.id = r.id) with
      | none => exact absurd (List.find?_eq_none.mp hfound r hr) (by simp)
      | some x =>
        have hx := List.find?_some hfound
        rw [h.linked.eq_of_id (List.mem_of_find?_eq_some hfound) hr (of_decide_eq_true hx)]
    have htarget {x : Report} (hx : x ∈ c :: dups) : x.id ∈ s.reports.map (·.id) := by
      rcases List.mem_cons.mp hx with rfl | hx
      · exact hoid ▸ List.mem_map_of_mem hold
      · rw [← hdups] at hx
        exact List.mem_map_of_mem (List.mem_filter.mp hx).1
    refine ⟨h.linked.close hclosed ⟨old, hold, hoid, hown⟩ hdups, ⟨?_, ?_⟩, ?_, ?_⟩
    · intro p hp
      rw [hids]
      rcases List.mem_append.mp hp with hp | hp
      · exact h.known.1 p hp
      · obtain ⟨x, hx, hp⟩ := List.mem_filterMap.mp hp
        obtain ⟨n, -, rfl⟩ := Option.map_eq_some_iff.mp hp
        exact htarget hx
    · intro d hd
      rw [hids]
      rcases List.mem_append.mp hd with hd | hd
      · exact h.known.2 d hd
      · obtain ⟨x, hx, hd⟩ := List.mem_filterMap.mp hd
        split at hd
        · cases hd
          exact htarget hx
        · cases hd
    · intro r hr a ha
      obtain ⟨was, hwas, rfl⟩ := List.mem_map.mp hr
      have hread : ∀ x ∈ c :: dups, x.id = was.id → x.userId = was.userId ∧
          x.status = was.status := by
        intro x hx hid
        rcases List.mem_cons.mp hx with rfl | hx
        · obtain rfl := h.linked.eq_of_id hold hwas (hoid.trans hid)
          rw [← hoid, hfind hold, Option.map_some, Option.some.injEq] at hstatus
          exact ⟨houser.symm, hstatus.symm⟩
        · rw [← hdups] at hx
          obtain rfl := h.linked.eq_of_id (List.mem_filter.mp hx).1 hwas hid
          exact ⟨rfl, rfl⟩
      rw [List.countP_append, List.countP_append]
      have hbefore := h.told was hwas a ha
      have hnew : (notices (c :: dups) toStatus actor).countP (about was.id a) =
          (closing s.reports (c :: dups) actor).countP (byOther was.id a) :=
        countP_notices (hfind hwas) ha hclosed hread
      exact congrArg₂ _ hbefore hnew
    · refine h.read_map (fun r hr => ?_) rfl
      exact ⟨_, List.mem_map_of_mem hr, rfl, rfl, rfl⟩
  · cases hs

/-! ## 5. The reports of one defect -/

theorem Inv.step {e : Event} (h : Inv s) (hcalm : Calm s e) (hs : Bugs.step s e = some s') :
    Inv s' := by
  cases e with
  | look userId title fingerprint => exact h.look hs
  | file i id => exact h.file hcalm hs
  | openReport id toStatus actor note => exact h.openReport hs
  | collect i => exact h.collect hs
  | close i => exact h.close hcalm hs

/-- The reports of one defect are together: one is open that is not attached, it counts those that
are, none is open that is attached to a closed one; and the author of a report was told once of each
closure by another. -/
structure Together (s : State) : Prop where
  single : ∀ r ∈ s.reports, ∀ r' ∈ s.reports, r.duplicateOf = none → r'.duplicateOf = none →
    r.status.closed = false → r'.status.closed = false → r.fingerprint = r'.fingerprint → r = r'
  counted : ∀ r ∈ s.reports, r.duplicateOf = none →
    r.occurrences = 1 + s.reports.countP (·.duplicateOf = some r.id)
  attached : ∀ r ∈ s.reports, ∀ c ∈ s.reports, r.duplicateOf = some c.id →
    r.status.closed = false → c.status.closed = false
  told : ∀ r ∈ s.reports, ∀ a, r.userId = some a →
    (∀ c ∈ s.closures, c.report = r.id → c.actor ≠ some a) →
    s.sent.countP (about r.id a) = s.closures.countP (·.report = r.id)

theorem Inv.together (h : Inv s) : Together s where
  single := h.linked.single
  counted := h.linked.counted
  attached r hr c hc hdup hopen := by
    obtain ⟨d, hd, hid, -, hclosed⟩ := h.linked.attached r hr c.id hdup
    rw [← h.linked.eq_of_id hd hc hid]
    exact hclosed hopen
  told r hr a ha hother := by
    rw [h.told r hr a ha]
    refine List.countP_congr fun c hc => ?_
    simp only [byOther, Bool.and_eq_true, decide_eq_true_eq]
    exact and_iff_left_of_imp (hother c hc)

/-- **The reports of one defect stay together**, in every run where each commit finds what its call
read, and attaches no report to a closed one. -/
theorem reports_together (reports : List Report) (hlinked : Linked reports) (s : State)
    (h : Reach step Calm (start reports) s) : Together s := by
  have hinv : Inv s := by
    refine h.invariant ⟨hlinked, ⟨?_, ?_⟩, fun _ _ _ _ => rfl, ?_⟩
      fun _ _ _ hinv hcalm hs => hinv.step hcalm hs
    · exact fun p hp => absurd hp List.not_mem_nil
    · exact fun c hc => absurd hc List.not_mem_nil
    · exact fun call hcall => absurd hcall List.not_mem_nil
  exact hinv.together

/-- Two reports of one defect, of which both look before either is filed. -/
def bothLook : List Event :=
  [.look (some 1) "Page blanche" "f1", .look (some 2) "Page vide" "f1", .file 0 1, .file 1 2]

/-- One after the other, and a closure by a third. -/
def inTurn : List Event :=
  [.look (some 1) "Page blanche" "f1", .file 0 1, .look (some 2) "Page vide" "f1", .file 1 2,
    .openReport 1 .resolved (some 3) none, .collect 2, .close 2]

/-- Two creations that both look before either is filed leave two open reports. -/
theorem reports_apart : ¬ ∀ s, Reach step anyStep (start []) s → Together s := by
  intro h
  have hrun : (replay step anyStep (start []) bothLook).map (·.reports) =
      some [newReport 1 (some 1) "Page blanche" "f1" none,
        newReport 2 (some 2) "Page vide" "f1" none] := by
    decide +kernel
  obtain ⟨s, hs, hreports⟩ := Option.map_eq_some_iff.mp hrun
  have hsingle := (h s (.of_replay _ hs)).single
  rw [hreports] at hsingle
  have hsame := hsingle _ List.mem_cons_self _ (List.mem_cons_of_mem _ List.mem_cons_self)
    rfl rfl rfl rfl rfl
  exact absurd (congrArg Report.id hsame) (by decide)

theorem linked_nil : Linked [] := by
  refine ⟨List.nodup_nil, ?_, ?_, ?_⟩ <;> exact fun r hr => absurd hr List.not_mem_nil

/-- In turn, the second is attached to the first, and both authors are told of the closure. -/
theorem reports_together_two : ∃ s, Reach step Calm (start []) s ∧
    s.reports.map (fun r => (r.status, r.occurrences, r.duplicateOf)) =
      [(.resolved, 2, none), (.resolved, 1, some 1)] ∧
    s.sent.map (fun p => (p.1, p.2.userId)) = [(1, 1), (2, 2)] ∧ Together s := by
  have hrun : (replay step Calm (start []) inTurn).map (fun s =>
      (s.reports.map (fun r => (r.status, r.occurrences, r.duplicateOf)),
        s.sent.map (fun p => (p.1, p.2.userId)))) =
      some ([(.resolved, 2, none), (.resolved, 1, some 1)], [(1, 1), (2, 2)]) := by
    decide +kernel
  obtain ⟨s, hs, hshape⟩ := Option.map_eq_some_iff.mp hrun
  have hreach := Reach.of_replay _ hs
  exact ⟨s, hreach, (Prod.mk.inj hshape).1, (Prod.mk.inj hshape).2,
    reports_together [] linked_nil s hreach⟩

end Apowerb.Bugs
