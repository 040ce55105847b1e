/-
# Polling a folder

A `file` trigger lists its folder from time to time (`poll_file_trigger`), launches one run for
each file that is new or has another modification date than when it was last seen, and then records
the whole listing as what was seen.  Nothing recorded means that the folder was never polled: the
first listing is recorded without launching anything.

A folder found empty leaves nothing recorded, so the poll after it is a first one again
(`empty_folder_starts_over`; the authors accept it).  `launches_eq_appearances` is what the trigger
does by design: a version of a file is launched once for each time it appears between two recorded
listings, the first of them not empty.

A launch that raises ends the poll before anything is recorded, and the files launched before it
come up again at the next poll; a file without a date is never new, since a missing record and a
missing date read the same.  Both are left out of the theorem.
-/
import Apowerb.Trigger.Slots

namespace Apowerb.Trigger.Folder

/-! ## 1. A poll -/

/-- A file of a listing. -/
structure File where
  id : String
  name : Value
  path : Value
  url : Value
  size : Value
  modifiedAt : Option String
deriving DecidableEq, Repr

/-- A version of a file: what is recorded of it. -/
abbrev Version := String × Option String

def File.version (f : File) : Version := (f.id, f.modifiedAt)

/-- A complete listing of a folder: no file comes twice. -/
structure Listing where
  files : List File
  nodup : (files.map (·.id)).Nodup

/-- The rows of the seen files of a trigger. -/
abbrev Seen := List Version

/-- `seen.get(file_id)`: a file that is not there and a file without a date give the same. -/
def Seen.date (seen : Seen) (id : String) : Option String := (seen.lookup id).join

/-- `dedupe_new_files`. -/
def dedupeNewFiles (seen : Seen) (current : List File) : List File :=
  current.filter fun f => seen.date f.id ≠ f.modifiedAt

/-- The surroundings of a poll. -/
structure Poll where
  /-- The provider needs no integration, or the owner has it. -/
  integrated : Bool
  /-- What `list_files` returns; `none` where it raises. -/
  listing : Option Listing
  /-- What comes of `launch_triggered_run` for each file. -/
  launch : File → Launch

/-- The loop over the new files: those launched, and whether a launch raised.  A workflow that is
not published is passed over. -/
def launchAll (launch : File → Launch) : List File → List File × Bool
  | [] => ([], false)
  | f :: rest =>
    match launch f with
    | .started _ => (f :: (launchAll launch rest).1, (launchAll launch rest).2)
    | .notActive => launchAll launch rest
    | .failed => ([], true)

/-- What a poll does: the files it launches, whether it raises, and what is recorded then. -/
structure Result where
  launched : List File
  raised : Bool
  seen : Seen

/-- `poll_file_trigger`. -/
def pollFileTrigger (seen : Seen) (p : Poll) : Result :=
  if ¬ p.integrated then ⟨[], false, seen⟩
  else
    match p.listing with
    | none => ⟨[], false, seen⟩
    | some current =>
      let isFirstPass := seen.isEmpty
      let (launched, raised) :=
        if isFirstPass then ([], false)
        else launchAll p.launch (dedupeNewFiles seen current.files)
      if raised then ⟨launched, true, seen⟩
      else ⟨launched, false, current.files.map File.version⟩

/-! ## 2. A history of polls -/

/-- A poll of a history, with what was recorded before it. -/
structure Visit where
  before : Seen
  poll : Poll

def Visit.result (v : Visit) : Result := pollFileTrigger v.before v.poll

/-- The polls in order, from what is recorded. -/
def visits : Seen → List Poll → List Visit
  | _, [] => []
  | seen, p :: rest => ⟨seen, p⟩ :: visits (pollFileTrigger seen p).seen rest

/-- The listing of a poll that has one. -/
def Visit.listing (v : Visit) : Option Listing := if v.poll.integrated then v.poll.listing else none

/-- The listing of a poll that succeeds entirely. -/
def Visit.whole (v : Visit) : Option Listing := if v.result.raised then none else v.listing

/-- How often a version is launched. -/
def launches (version : Version) (history : List Visit) : Nat :=
  (history.map fun v => v.result.launched.countP (·.version = version)).sum

/-- The launch goes through. -/
def isStarted : Launch → Bool
  | .started _ => true
  | .notActive | .failed => false

/-- The version is in a listing, and its launch goes through. -/
def shows (version : Version) (launch : File → Launch) (files : List File) : Bool :=
  files.any fun f => f.version = version ∧ isStarted (launch f)

/-- How often a version appears: it is in the listing of a poll that succeeds entirely, and was not
in that of the last such poll, which was not empty. -/
def appearances (version : Version) : List File → List Visit → Nat
  | _, [] => 0
  | before, v :: rest =>
    match v.whole with
    | none => appearances version before rest
    | some current =>
      (if before ≠ [] ∧ version ∉ before.map File.version ∧ shows version v.poll.launch current.files
        then 1 else 0) + appearances version current.files rest

/-! ## 3. What one poll does -/

variable {seen : Seen} {p : Poll} {current : Listing} {version : Version}

/-- A poll without a listing leaves everything as it was. -/
theorem poll_idle (h : (Visit.mk seen p).listing = none) :
    pollFileTrigger seen p = ⟨[], false, seen⟩ := by
  unfold pollFileTrigger
  unfold Visit.listing at h
  cases hintegrated : p.integrated with
  | false => rfl
  | true =>
    rw [hintegrated, if_pos rfl] at h
    have hlisting : p.listing = none := h
    simp [hlisting]

theorem listing_eq_some (h : (Visit.mk seen p).listing = some current) :
    p.integrated = true ∧ p.listing = some current := by
  unfold Visit.listing at h
  cases hintegrated : p.integrated with
  | false => simp [hintegrated] at h
  | true => exact ⟨rfl, by simpa [hintegrated] using h⟩

/-- A first poll records its listing and launches nothing. -/
theorem poll_first (h : (Visit.mk [] p).listing = some current) :
    pollFileTrigger [] p = ⟨[], false, current.files.map File.version⟩ := by
  obtain ⟨hintegrated, hlisting⟩ := listing_eq_some h
  simp [pollFileTrigger, hintegrated, hlisting]

/-- Any other poll launches the new files, and records the listing unless a launch raises. -/
theorem poll_next (hseen : seen ≠ []) (h : (Visit.mk seen p).listing = some current) :
    pollFileTrigger seen p =
      let fired := launchAll p.launch (dedupeNewFiles seen current.files)
      ⟨fired.1, fired.2, if fired.2 then seen else current.files.map File.version⟩ := by
  obtain ⟨hintegrated, hlisting⟩ := listing_eq_some h
  unfold pollFileTrigger
  simp only [hintegrated, hlisting, not_true_eq_false, if_false, List.isEmpty_iff, hseen]
  split
  · rename_i hraised
    rw [hraised]
  · rename_i hraised
    rw [Bool.not_eq_true] at hraised
    rw [hraised]

/-- Only new files are launched. -/
theorem mem_launchAll {launch : File → Launch} {files : List File} {f : File}
    (h : f ∈ (launchAll launch files).1) : f ∈ files := by
  induction files with
  | nil => cases h
  | cons g rest ih =>
    unfold launchAll at h
    split at h
    · rcases List.mem_cons.mp h with rfl | h
      · exact List.mem_cons_self
      · exact List.mem_cons_of_mem _ (ih h)
    · exact List.mem_cons_of_mem _ (ih h)
    · cases h

/-- Where no launch raises, all the files whose launch goes through are launched. -/
theorem launchAll_eq {launch : File → Launch} {files : List File}
    (h : (launchAll launch files).2 = false) :
    (launchAll launch files).1 = files.filter fun f => isStarted (launch f) := by
  induction files with
  | nil => rfl
  | cons f rest ih =>
    unfold launchAll at h ⊢
    cases hlaunch : launch f with
    | started runId =>
      rw [hlaunch] at h
      simp only [List.filter_cons, hlaunch, isStarted, if_true, ih h]
    | notActive =>
      rw [hlaunch] at h
      simp only [List.filter_cons, hlaunch, isStarted, Bool.false_eq_true, if_false, ih h]
    | failed =>
      rw [hlaunch] at h
      cases h

/-! ## 4. What is recorded -/

theorem lookup_eq_some_iff {l : List Version} (hnodup : (l.map Prod.fst).Nodup) {id : String}
    {date : Option String} : l.lookup id = some date ↔ (id, date) ∈ l := by
  induction l with
  | nil => simp
  | cons e rest ih =>
    obtain ⟨k, d⟩ := e
    rw [List.map_cons, List.nodup_cons] at hnodup
    by_cases hk : id = k
    · subst hk
      have hfresh : (id, date) ∉ rest := fun hmem =>
        hnodup.1 (List.mem_map.mpr ⟨_, hmem, rfl⟩)
      simp [hfresh, eq_comm]
    · have hne : (id == k) = false := beq_false_of_ne hk
      simp [List.lookup_cons, hne, ih hnodup.2, hk]

/-- A dated version reads as recorded exactly when it is. -/
theorem date_eq_iff {before : Listing} {id date : String} :
    Seen.date (before.files.map File.version) id = some date ↔
      (id, some date) ∈ before.files.map File.version := by
  have hnodup : ((before.files.map File.version).map Prod.fst).Nodup := by
    rw [List.map_map]
    exact before.nodup
  unfold Seen.date
  rw [← lookup_eq_some_iff hnodup, Option.join_eq_some_iff]

/-- A version that is recorded is not new, whatever its date. -/
theorem not_new_of_recorded {before : Listing} {f : File} {files : List File}
    (h : f.version ∈ before.files.map File.version) :
    f ∉ dedupeNewFiles (before.files.map File.version) files := by
  have hnodup : ((before.files.map File.version).map Prod.fst).Nodup := by
    rw [List.map_map]
    exact before.nodup
  have hlookup : (before.files.map File.version).lookup f.id = some f.modifiedAt :=
    (lookup_eq_some_iff hnodup).mpr h
  intro hmem
  have hne := (List.mem_filter.mp hmem).2
  simp [Seen.date, hlookup] at hne

/-- A version comes once in a listing. -/
theorem countP_version {files : List File} (hnodup : (files.map (·.id)).Nodup) (q : File → Bool) :
    files.countP (fun f => f.version = version ∧ q f) =
      if files.any fun f => f.version = version ∧ q f then 1 else 0 := by
  induction files with
  | nil => rfl
  | cons f rest ih =>
    rw [List.map_cons, List.nodup_cons] at hnodup
    rw [List.countP_cons, List.any_cons, ih hnodup.2]
    by_cases hf : f.version = version
    · -- No other file of the listing has its identifier.
      have hrest : rest.any (fun g => g.version = version ∧ q g) = false := by
        rw [List.any_eq_false]
        intro g hg hversion
        have hg' : g.version = f.version := by
          rw [hf]
          exact (of_decide_eq_true hversion).1
        have hid : g.id = f.id := congrArg Prod.fst hg'
        exact hnodup.1 (hid ▸ List.mem_map_of_mem hg)
      rw [hrest]
      simp
    · simp [hf]

/-- The launches of a dated version by a poll that raises nothing. -/
theorem countP_fired {before : Listing} (hdated : version.2 ≠ none)
    (hraised : (launchAll p.launch
      (dedupeNewFiles (before.files.map File.version) current.files)).2 = false) :
    (launchAll p.launch (dedupeNewFiles (before.files.map File.version) current.files)).1.countP
        (·.version = version) =
      if version ∉ before.files.map File.version ∧ shows version p.launch current.files
        then 1 else 0 := by
  rw [launchAll_eq hraised, dedupeNewFiles, List.countP_filter, List.countP_filter]
  obtain ⟨id, date⟩ := version
  obtain ⟨date, rfl⟩ := Option.ne_none_iff_exists'.mp hdated
  have hnew : ∀ {f : File}, f.version = (id, some date) →
      (Seen.date (before.files.map File.version) f.id ≠ f.modifiedAt ↔
        (id, some date) ∉ before.files.map File.version) := by
    intro f hversion
    obtain ⟨rfl, hdate⟩ := Prod.mk.inj hversion
    rw [hdate, ne_eq, date_eq_iff]
  by_cases hseen : (id, some date) ∈ before.files.map File.version
  · rw [if_neg fun h => h.1 hseen, List.countP_eq_zero]
    intro f _ hf
    simp only [Bool.and_eq_true, decide_eq_true_eq] at hf
    exact (hnew hf.1.1).mp hf.2 hseen
  · have hsame : ∀ f ∈ current.files,
        (f.version = (id, some date) && isStarted (p.launch f) &&
            Seen.date (before.files.map File.version) f.id ≠ f.modifiedAt : Bool) = true ↔
          decide (f.version = (id, some date) ∧ isStarted (p.launch f)) = true := by
      intro f _
      simp only [Bool.and_eq_true, decide_eq_true_eq]
      exact ⟨fun h => h.1, fun h => ⟨h, (hnew h.1).mpr hseen⟩⟩
    rw [List.countP_congr hsame, countP_version current.nodup]
    simp only [hseen, not_false_eq_true, true_and]
    rfl

/-! ## 5. Each appearance is launched once -/

theorem visits_cons (seen : Seen) (p : Poll) (rest : List Poll) :
    visits seen (p :: rest) = ⟨seen, p⟩ :: visits (pollFileTrigger seen p).seen rest := rfl

theorem launches_cons (v : Visit) (rest : List Visit) :
    launches version (v :: rest) =
      v.result.launched.countP (·.version = version) + launches version rest := rfl

theorem appearances_skip {before : List File} {v : Visit} {rest : List Visit} (h : v.whole = none) :
    appearances version before (v :: rest) = appearances version before rest := by
  rw [appearances, h]

theorem appearances_whole {before : List File} {v : Visit} {rest : List Visit}
    (h : v.whole = some current) :
    appearances version before (v :: rest) =
      (if before ≠ [] ∧ version ∉ before.map File.version ∧ shows version v.poll.launch current.files
        then 1 else 0) + appearances version current.files rest := by
  rw [appearances, h]

/-- The launches and the appearances of a history that goes on from a listing. -/
theorem launches_eq_of_recorded (hdated : version.2 ≠ none) (polls : List Poll) (before : Listing)
    (hclean : ∀ v ∈ visits (before.files.map File.version) polls, v.result.raised = true →
      ∀ f ∈ v.result.launched, f.version ≠ version) :
    launches version (visits (before.files.map File.version) polls) =
      appearances version before.files (visits (before.files.map File.version) polls) := by
  induction polls generalizing before with
  | nil => rfl
  | cons p rest ih =>
    rw [visits_cons] at hclean ⊢
    obtain ⟨hhead, htail⟩ := List.forall_mem_cons.mp hclean
    rw [launches_cons]
    unfold Visit.result at hhead ⊢
    dsimp only at hhead ⊢
    cases hlisting : (Visit.mk (before.files.map File.version) p).listing with
    | none =>
      have hwhole : (Visit.mk (before.files.map File.version) p).whole = none := by
        simp [Visit.whole, hlisting]
      rw [poll_idle hlisting] at htail ⊢
      rw [appearances_skip hwhole, List.countP_nil, Nat.zero_add]
      exact ih before htail
    | some current =>
      by_cases hempty : before.files = []
      · -- A first poll.
        have hresult : pollFileTrigger (before.files.map File.version) p =
            ⟨[], false, current.files.map File.version⟩ := by
          rw [hempty] at hlisting ⊢
          exact poll_first hlisting
        have hwhole : (Visit.mk (before.files.map File.version) p).whole = some current := by
          simp [Visit.whole, Visit.result, hresult, hlisting]
        rw [hresult] at htail ⊢
        rw [appearances_whole hwhole, if_neg fun h => h.1 hempty, List.countP_nil]
        exact congrArg _ (ih current htail)
      · have hnext := poll_next (by simpa using hempty) hlisting
        dsimp only at hnext
        cases hraised : (launchAll p.launch
            (dedupeNewFiles (before.files.map File.version) current.files)).2 with
        | true =>
          -- Nothing is recorded, and the version is not among the files launched.
          rw [hraised, if_pos rfl] at hnext
          have hwhole : (Visit.mk (before.files.map File.version) p).whole = none := by
            simp [Visit.whole, Visit.result, hnext]
          rw [hnext] at hhead htail ⊢
          have hnone : (launchAll p.launch (dedupeNewFiles (before.files.map File.version)
              current.files)).1.countP (·.version = version) = 0 := by
            rw [List.countP_eq_zero]
            intro f hf
            simpa using hhead rfl f hf
          rw [appearances_skip hwhole, hnone, Nat.zero_add]
          exact ih before htail
        | false =>
          rw [hraised, if_neg Bool.false_ne_true] at hnext
          have hwhole : (Visit.mk (before.files.map File.version) p).whole = some current := by
            simp [Visit.whole, Visit.result, hnext, hlisting]
          rw [hnext] at htail ⊢
          rw [appearances_whole hwhole, countP_fired hdated hraised, ih current htail]
          simp [hempty]

/-- A version that every listing shows is never launched. -/
theorem launches_eq_zero (polls : List Poll) (seen : Seen)
    (hrecorded : seen = [] ∨ ∃ before : Listing,
      seen = before.files.map File.version ∧ version ∈ seen)
    (hshown : ∀ v ∈ visits seen polls, ∀ current, v.listing = some current →
      version ∈ current.files.map File.version) :
    launches version (visits seen polls) = 0 := by
  induction polls generalizing seen with
  | nil => rfl
  | cons p rest ih =>
    rw [visits_cons] at hshown ⊢
    obtain ⟨hhead, htail⟩ := List.forall_mem_cons.mp hshown
    rw [launches_cons]
    unfold Visit.result
    dsimp only at htail ⊢
    cases hlisting : (Visit.mk seen p).listing with
    | none =>
      rw [poll_idle hlisting] at htail ⊢
      rw [List.countP_nil, Nat.zero_add]
      exact ih seen hrecorded htail
    | some current =>
      have hthere : version ∈ current.files.map File.version := hhead current hlisting
      rcases hrecorded with rfl | ⟨before, rfl, hmem⟩
      · rw [poll_first hlisting] at htail ⊢
        rw [List.countP_nil, Nat.zero_add]
        exact ih _ (.inr ⟨current, rfl, hthere⟩) htail
      · have hseen : before.files.map File.version ≠ [] := List.ne_nil_of_mem hmem
        have hnone : (launchAll p.launch (dedupeNewFiles (before.files.map File.version)
            current.files)).1.countP (·.version = version) = 0 := by
          rw [List.countP_eq_zero]
          intro f hf hversion
          rw [decide_eq_true_eq] at hversion
          exact not_new_of_recorded (hversion ▸ hmem) (mem_launchAll hf)
        rw [poll_next hseen hlisting] at htail ⊢
        dsimp only at htail ⊢
        rw [hnone, Nat.zero_add]
        split at htail
        · rename_i hraised
          rw [if_pos hraised]
          exact ih _ (.inr ⟨before, rfl, hmem⟩) htail
        · rename_i hraised
          rw [if_neg hraised]
          exact ih _ (.inr ⟨current, rfl, hthere⟩) htail

/-- **A version is launched once for each time it appears**, and a version that is there from the
first listing to the last is never launched.  For every history of polls of a folder, from the
first one on; a dated version that some poll launched before a launch of the same poll raised is
left out of the first part. -/
theorem launches_eq_appearances (polls : List Poll) (version : Version) :
    (version.2 ≠ none →
      (∀ v ∈ visits [] polls, v.result.raised = true →
        ∀ f ∈ v.result.launched, f.version ≠ version) →
      launches version (visits [] polls) = appearances version [] (visits [] polls)) ∧
    ((∀ v ∈ visits [] polls, ∀ current, v.listing = some current →
        version ∈ current.files.map File.version) →
      launches version (visits [] polls) = 0) := by
  refine ⟨fun hdated hclean => ?_, launches_eq_zero polls [] (.inl rfl)⟩
  exact launches_eq_of_recorded hdated polls ⟨[], List.nodup_nil⟩ hclean

/-- A file, on a given day. -/
def file (id : String) (day : Option String) : File :=
  ⟨id, .null, .null, .null, .null, day⟩

/-- A poll of an owner with an integration, whose launches all work. -/
def pollOf (listing : Option Listing) : Poll := ⟨true, listing, fun _ => .started "run"⟩

def noFile : Listing := ⟨[], List.nodup_nil⟩

def oneFile : Listing := ⟨[file "a" (some "monday")], by decide⟩

def twoFiles : Listing := ⟨[file "a" (some "monday"), file "b" (some "tuesday")], by decide⟩

/-- A file is there from the start, a listing fails, and another file comes. -/
def secondFile : List Poll :=
  [pollOf (some oneFile), pollOf none, pollOf (some twoFiles), pollOf (some twoFiles)]

/-- The second file is launched once, and the first never. -/
theorem launches_eq_appearances_secondFile :
    launches ("b", some "tuesday") (visits [] secondFile) = 1 ∧
      launches ("a", some "monday") (visits [] secondFile) = 0 := by
  have hclean : ∀ v ∈ visits [] secondFile, v.result.raised = true →
      ∀ f ∈ v.result.launched, f.version ≠ ("b", some "tuesday") := by decide
  have hthere : ∀ v ∈ visits [] secondFile, ∀ current, v.listing = some current →
      ("a", some "monday") ∈ current.files.map File.version := by
    have hall : ∀ v ∈ visits [] secondFile, ∀ files ∈ v.listing.map Listing.files,
        ("a", some "monday") ∈ files.map File.version := by decide
    intro v hv current hcurrent
    exact hall v hv current.files (by simp [hcurrent])
  have honce := (launches_eq_appearances secondFile _).1 (by decide) hclean
  have hnever := (launches_eq_appearances secondFile _).2 hthere
  exact ⟨honce.trans (by decide), hnever⟩

/-- **A folder found empty starts over.**  The first poll succeeds and finds nothing; the file that
the second finds is taken for one that was there from the start, although every poll and every
launch works. -/
theorem empty_folder_starts_over :
    ¬ ∀ (first last : Poll) (before current : Listing) (f : File),
      (Visit.mk [] first).whole = some before → last.integrated = true →
      last.listing = some current → f ∈ current.files → f.modifiedAt ≠ none →
      f.version ∉ before.files.map File.version → (∀ g, isStarted (last.launch g)) →
      launches f.version (visits [] [first, last]) = 1 := by
  intro hall
  have honce := hall (pollOf (some noFile)) (pollOf (some oneFile)) noFile oneFile
    (file "a" (some "monday")) rfl rfl rfl List.mem_cons_self (by decide) (by decide)
    (fun _ => rfl)
  exact absurd honce (by decide)

end Apowerb.Trigger.Folder
