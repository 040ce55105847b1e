/-
# Concurrent saves

Any number of `_save_artifact` and `_save_input_artifact` calls, of any artifacts, by several
workers.  A save lists the keys, which decides its version, and uploads under a key that it has
made up; neither of the two asks whether the key is still free.

* `no_version_lost`: as long as each upload finds its key free, and has some bytes, the versions
  that the saves of one artifact returned are different, and each loads what was saved.
* `version_lost`: two saves that list before either uploads return the same version, and the bytes
  of the first are gone.

The key is free right after the listing (`next_key_free`), so it takes an upload in between.  An
artifact without bytes is saved, but `_load_artifact` returns nothing for it.
-/
import Apowerb.Artifact.Service
import Apowerb.Lib.Replace
import Apowerb.Lib.Runs

namespace Apowerb.Artifact.Saves

open Runs

/-! ## 1. The machine -/

/-- Where a save stands. -/
inductive Phase
  | listed (version : Nat)
  | saved (version : Nat)
  | failed
deriving DecidableEq, Repr

structure Call where
  request : Request
  phase : Phase
deriving DecidableEq, Repr

structure State where
  bucket : Bucket
  calls : List Call

inductive Op
  /-- A save up to its listing. -/
  | list (request : Request)
  | upload (i : Nat) (clock : Int)
  /-- The storage raises. -/
  | abort (i : Nat)

def State.setCall (s : State) (i : Nat) (call : Call) : State :=
  { s with calls := s.calls.set i call }

/-- The phase of a save that has listed. -/
def listing (request : Request) (b : Bucket) : Phase :=
  match request.next b with
  | .ok version => .listed version
  | .error _ => .failed

def stepUpload (s : State) (i : Nat) (clock : Int) : Option State :=
  match s.calls[i]? with
  | some ⟨request, .listed version⟩ =>
    match request.object version clock with
    | .ok o =>
      let stored : State := { s with bucket := s.bucket.upload o }
      some (stored.setCall i ⟨request, .saved version⟩)
    | .error _ => some (s.setCall i ⟨request, .failed⟩)
  | _ => none

def stepAbort (s : State) (i : Nat) : Option State :=
  match s.calls[i]? with
  | some ⟨request, .listed _⟩ => some (s.setCall i ⟨request, .failed⟩)
  | _ => none

/-- One operation; `none` where it cannot happen. -/
def step (s : State) : Op → Option State
  | .list request => some { s with calls := s.calls ++ [⟨request, listing request s.bucket⟩] }
  | .upload i clock => stepUpload s i clock
  | .abort i => stepAbort s i

def start (b : Bucket) : State := ⟨b, []⟩

/-! ## 2. What is to hold, and when -/

/-- The artifact that a save has written, and the version that it returned. -/
def Call.returned (call : Call) : Option (List Char × String × Nat) :=
  match call.phase, call.request.start with
  | .saved version, .ok start => some (start, call.request.filename, version)
  | _, _ => none

/-- `load_artifact` or `load_input_artifact` with what a save was given. -/
def load (b : Bucket) (request : Request) (version : Nat) :
    Except Raised (Option (List UInt8 × String)) :=
  match request with
  | .output app user session filename _ => loadArtifact b app user session filename (some version)
  | .input app session filename _ _ => loadInputArtifact b app session filename (some version)

structure Kept (s : State) : Prop where
  distinct : (s.calls.filterMap Call.returned).Nodup
  loads : ∀ call ∈ s.calls, ∀ version, call.phase = .saved version →
    ∃ content, call.request.stored = .ok content ∧
      load s.bucket call.request version = .ok (some content)

/-- The steps of a calm run: an upload finds its key free, and has some bytes. -/
def Calm (s : State) : Op → Prop
  | .upload i clock => ∀ request version, s.calls[i]? = some ⟨request, .listed version⟩ →
    ∀ o, request.object version clock = .ok o → s.bucket.get? o.key = none ∧ o.body ≠ []
  | _ => True

/-! ## 3. The invariant -/

/-- The key that a save has written. -/
def Call.key (call : Call) : Option (List Char) :=
  call.returned.map fun (start, filename, version) => keyAt start version filename

/-- What a save has written is in the bucket. -/
def CallOk (b : Bucket) (call : Call) : Prop :=
  ∀ version, call.phase = .saved version →
    ∃ clock o, call.request.object version clock = .ok o ∧ o ∈ b.objects ∧ o.body ≠ []

structure Inv (s : State) : Prop where
  keys : (s.calls.filterMap Call.key).Nodup
  calls : ∀ call ∈ s.calls, CallOk s.bucket call

variable {s s' : State} {op : Op} {i : Nat}

theorem object_eq_ok_iff {r : Request} {version : Nat} {clock : Int} {o : Object} :
    r.object version clock = .ok o ↔ ∃ data contentType start,
      r.stored = .ok (data, contentType) ∧ r.start = .ok start ∧
        o = ⟨keyAt start version r.filename, data, contentType, clock⟩ := by
  unfold Request.object
  constructor
  · intro h
    obtain ⟨⟨data, contentType⟩, hstored, h⟩ := Except.bind_eq_ok_iff.mp h
    obtain ⟨start, hstart, h⟩ := Except.bind_eq_ok_iff.mp h
    cases h
    exact ⟨data, contentType, start, hstored, hstart, rfl⟩
  · rintro ⟨data, contentType, start, hstored, hstart, rfl⟩
    rw [hstored, hstart]
    rfl

theorem load_of_start {b : Bucket} {r : Request} {start : List Char} (version : Nat)
    (h : r.start = .ok start) :
    load b r version = .ok (loadKey b (keyAt start version r.filename)) := by
  cases r with
  | output app user session filename artifact =>
    simp only [load, loadArtifact]
    rw [show keyPrefix app user filename session .output = .ok start from h]
    rfl
  | input app session filename data contentType =>
    simp only [load, loadInputArtifact]
    rw [show keyPrefix app "" filename (some session) .input = .ok start from h]
    rfl

/-- **What the invariant says of the claim.** -/
theorem Inv.kept (h : Inv s) : Kept s where
  distinct := by
    have hmap : s.calls.filterMap Call.key = (s.calls.filterMap Call.returned).map
        fun (start, filename, version) => keyAt start version filename := by
      rw [List.map_filterMap]
      rfl
    have hkeys := h.keys
    rw [hmap] at hkeys
    exact hkeys.of_map _
  loads call hcall version hphase := by
    obtain ⟨clock, o, ho, hmem, hbody⟩ := h.calls call hcall version hphase
    obtain ⟨data, contentType, start, hstored, hstart, rfl⟩ := object_eq_ok_iff.mp ho
    refine ⟨(data, contentType), hstored, ?_⟩
    have hget := Bucket.get?_eq_some_iff.mpr ⟨hmem, rfl⟩
    rw [load_of_start version hstart, loadKey, hget]
    exact congrArg _ (if_neg hbody)

/-! ## 4. Every operation keeps it -/

/-- A call that has saved nothing. -/
theorem CallOk.of_not_saved {b : Bucket} {call : Call} (h : ∀ v, call.phase ≠ .saved v) :
    CallOk b call :=
  fun version hphase => absurd hphase (h version)

theorem key_of_not_saved {call : Call} (h : ∀ v, call.phase ≠ .saved v) : call.key = none := by
  unfold Call.key Call.returned
  split
  · rename_i hphase _
    exact absurd hphase (h _)
  · rfl

theorem listing_not_saved (request : Request) (b : Bucket) (v : Nat) :
    listing request b ≠ .saved v := by
  unfold listing
  split <;> exact Phase.noConfusion

theorem Inv.list (h : Inv s) (request : Request) :
    Inv { s with calls := s.calls ++ [⟨request, listing request s.bucket⟩] } where
  keys := by
    rw [List.filterMap_append, List.filterMap_cons,
      key_of_not_saved (listing_not_saved request s.bucket), List.filterMap_nil, List.append_nil]
    exact h.keys
  calls call hcall := by
    rcases List.mem_append.mp hcall with hold | hnew
    · exact h.calls call hold
    · rw [List.mem_singleton.mp hnew]
      exact .of_not_saved (listing_not_saved request s.bucket)

/-- A call that fails. -/
theorem Inv.fail (h : Inv s) {call : Call} {request : Request} (hi : s.calls[i]? = some call) :
    Inv (s.setCall i ⟨request, .failed⟩) where
  keys := h.keys.sublist (Replace.filterMap_set_sublist hi (key_of_not_saved nofun))
  calls c hc := by
    rcases List.mem_or_eq_of_mem_set hc with hold | rfl
    · exact h.calls c hold
    · exact .of_not_saved nofun

/-- An object under a free key leaves the others in place. -/
theorem CallOk.upload {b : Bucket} {call : Call} {o : Object} (h : CallOk b call)
    (hfree : b.get? o.key = none) : CallOk (b.upload o) call := by
  intro version hphase
  obtain ⟨clock, saved, hobject, hmem, hbody⟩ := h version hphase
  refine ⟨clock, saved, hobject, Bucket.mem_upload.mpr (.inl ⟨hmem, fun heq => ?_⟩), hbody⟩
  cases hfree.symm.trans (Bucket.get?_eq_some_iff.mpr ⟨hmem, heq⟩)

theorem Inv.saved (h : Inv s) {request : Request} {version : Nat} {clock : Int} {o : Object}
    (hi : s.calls[i]? = some ⟨request, .listed version⟩)
    (ho : request.object version clock = .ok o) (hfree : s.bucket.get? o.key = none)
    (hbody : o.body ≠ []) :
    Inv { bucket := s.bucket.upload o, calls := s.calls.set i ⟨request, .saved version⟩ } := by
  obtain ⟨data, contentType, start, hstored, hstart, rfl⟩ := object_eq_ok_iff.mp ho
  have hperm : ((s.calls.set i ⟨request, .saved version⟩).filterMap Call.key).Perm
      (keyAt start version request.filename :: s.calls.filterMap Call.key) := by
    refine Replace.filterMap_set_perm hi (key_of_not_saved nofun) ?_
    simp [Call.key, Call.returned, hstart]
  refine ⟨hperm.nodup_iff.mpr (List.nodup_cons.mpr ⟨fun hmem => ?_, h.keys⟩), ?_⟩
  · -- What has been saved is in the bucket, and this key is not.
    obtain ⟨call, hcall, hkey⟩ := List.mem_filterMap.mp hmem
    unfold Call.key Call.returned at hkey
    split at hkey
    · rename_i v start' hphase hstart'
      have hsame := Option.some.inj hkey
      obtain ⟨clock', o, ho, hmem, -⟩ := h.calls call hcall v hphase
      obtain ⟨data', contentType', start'', -, hstart'', rfl⟩ := object_eq_ok_iff.mp ho
      cases hstart'.symm.trans hstart''
      cases hfree.symm.trans (Bucket.get?_eq_some_iff.mpr ⟨hmem, hsame⟩)
    · cases hkey
  · intro call hcall
    rcases List.mem_or_eq_of_mem_set hcall with hold | rfl
    · exact (h.calls call hold).upload hfree
    · intro v hv
      cases hv
      exact ⟨clock, _, ho, Bucket.mem_upload.mpr (.inr rfl), hbody⟩

theorem Inv.upload (h : Inv s) {clock : Int} (hok : Calm s (.upload i clock))
    (hs : stepUpload s i clock = some s') : Inv s' := by
  unfold stepUpload at hs
  split at hs
  · rename_i request version hi
    split at hs
    · rename_i o ho
      cases hs
      obtain ⟨hfree, hbody⟩ := hok request version hi o ho
      exact h.saved hi ho hfree hbody
    · cases hs
      exact h.fail hi
  · cases hs

theorem Inv.step (h : Inv s) (hok : Calm s op) (hs : Saves.step s op = some s') : Inv s' := by
  cases op with
  | list request =>
    cases hs
    exact h.list request
  | upload i clock => exact h.upload hok hs
  | abort i =>
    simp only [Saves.step, stepAbort] at hs
    split at hs
    · rename_i hi
      cases hs
      exact h.fail hi
    · cases hs

theorem start_inv (b : Bucket) : Inv (start b) where
  keys := List.nodup_nil
  calls call hcall := by cases hcall

/-! ## 5. The result -/

/-- **No saved version is lost**, where each upload finds its key free and has some bytes. -/
theorem no_version_lost {b : Bucket} (hrun : Reach step Calm (start b) s) : Kept s :=
  (hrun.invariant (start_inv b) fun _ _ _ h hok hs => h.step hok hs).kept

instance (s : State) : (op : Op) → Decidable (Calm s op)
  | .upload i clock =>
    match h : s.calls[i]? with
    | some ⟨request, .listed version⟩ =>
      match ho : request.object version clock with
      | .ok o =>
        decidable_of_iff (s.bucket.get? o.key = none ∧ o.body ≠ [])
          ⟨fun hok r v hr o' ho' => by
            cases h.symm.trans hr
            cases ho.symm.trans ho'
            exact hok,
          fun hall => hall request version h o ho⟩
      | .error _ => .isTrue fun r v hr o' ho' => by
          cases h.symm.trans hr
          cases ho.symm.trans ho'
    | some ⟨_, .saved _⟩ | some ⟨_, .failed⟩ | none => .isTrue fun r v hr => by
        cases h.symm.trans hr
  | .list _ | .abort _ => .isTrue trivial

/-- A report of one session. -/
def report (data : List UInt8) : Request :=
  .output "agent1" "user" (some "session") "report.txt" (.inlineData data none)

/-- Two saves of a report, one after the other. -/
def inOrder : List Op := [.list (report [1]), .upload 0 1, .list (report [2]), .upload 1 2]

theorem no_version_lost_inOrder : ∃ s, Reach step Calm (start .empty) s ∧
    s.calls.map (·.phase) = [.saved 0, .saved 1] ∧ Kept s := by
  have hplay : (replay step Calm (start .empty) inOrder).map (fun s => s.calls.map (·.phase)) =
      some [.saved 0, .saved 1] := by decide +kernel
  obtain ⟨s, hs, hout⟩ := Option.map_eq_some_iff.mp hplay
  have hrun := Reach.of_replay inOrder hs
  exact ⟨s, hrun, hout, no_version_lost hrun⟩

/-- Two saves of a report that both list before either uploads. -/
def crossed : List Op := [.list (report [1]), .list (report [2]), .upload 0 1, .upload 1 2]

/-- **A saved version can be lost.** -/
theorem version_lost : ¬ ∀ b s, Reach step anyStep (start b) s → Kept s := by
  intro hall
  have hplay : (replay step anyStep (start .empty) crossed).map
      (fun s => decide (s.calls.filterMap Call.returned).Nodup) = some false := by decide +kernel
  obtain ⟨s, hs, hout⟩ := Option.map_eq_some_iff.mp hplay
  exact absurd (hall .empty s (Reach.of_replay crossed hs)).distinct (of_decide_eq_false hout)

end Apowerb.Artifact.Saves
