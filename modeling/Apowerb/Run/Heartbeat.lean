/-
# The heartbeat of a silent stream

`core/sse_heartbeat.py`: a stream of server-sent events is relayed, and where it is silent for an
interval a comment is sent that keeps the connection open, but only between two events.

* **Nothing is corrupted.**  Without its pings the output is the source, and each of them stands
  where the relayed text is that of complete events.
* **Not every silence is filled.**  Where an event has ended is told from the last chunk alone: if
  the second of the two ends of line comes in a chunk of its own, the chunk does not end with both,
  and no ping is sent until more text comes (`sound_iff`).

A turn is what a wait of one interval brings.  The exceptions of the source and the end of the
connection are left out: what was sent until then is the output of the turns before.
-/
import Mathlib.Data.List.Induction
import Apowerb.Lib.Blocks

namespace Apowerb.Run.Heartbeat

/-! ## 1. The relay -/

/-- What a wait brings: nothing within the interval, or the next chunk. -/
inductive Turn
  | silent
  | chunk (s : List Char)
deriving DecidableEq

/-- What is sent. -/
inductive Sent
  | ping
  | chunk (s : List Char)
deriving DecidableEq

/-- `chunk.endswith("\n\n")`. -/
def endsEvent (s : List Char) : Bool := ['\n', '\n'].isSuffixOf s

/-- `at_boundary`, after a turn. -/
def boundaryAfter (atBoundary : Bool) : Turn → Bool
  | .silent => atBoundary
  | .chunk s => if s = [] then atBoundary else endsEvent s

/-- What a turn sends. -/
def sentBy (atBoundary : Bool) : Turn → List Sent
  | .silent => if atBoundary then [.ping] else []
  | .chunk s => [.chunk s]

/-- The loop of `with_sse_heartbeat`. -/
def beats (atBoundary : Bool) : List Turn → List Sent
  | [] => []
  | turn :: turns => sentBy atBoundary turn ++ beats (boundaryAfter atBoundary turn) turns

/-- The chunks of the source. -/
def chunksOf : List Turn → List (List Char)
  | [] => []
  | .silent :: turns => chunksOf turns
  | .chunk s :: turns => s :: chunksOf turns

/-- `with_sse_heartbeat`: an interval that is not positive turns it off. -/
def withSseHeartbeat (interval : Int) (turns : List Turn) : List Sent :=
  if interval ≤ 0 then (chunksOf turns).map .chunk else beats true turns

/-! ## 2. What is relayed -/

/-- The chunks in what is sent. -/
def relayed (sent : List Sent) : List (List Char) :=
  sent.filterMap fun
    | .ping => none
    | .chunk s => some s

/-- The text of turns. -/
def textOf (turns : List Turn) : List Char := (chunksOf turns).flatten

theorem chunksOf_append (before after : List Turn) :
    chunksOf (before ++ after) = chunksOf before ++ chunksOf after := by
  induction before with
  | nil => rfl
  | cons turn before ih => cases turn <;> simp [chunksOf, ih]

theorem beats_append (b : Bool) (before after : List Turn) :
    beats b (before ++ after) = beats b before ++ beats (before.foldl boundaryAfter b) after := by
  induction before generalizing b with
  | nil => rfl
  | cons turn before ih => simp [beats, ih]

theorem relayed_append (x y : List Sent) : relayed (x ++ y) = relayed x ++ relayed y :=
  List.filterMap_append

theorem relayed_map_chunk (chunks : List (List Char)) : relayed (chunks.map .chunk) = chunks := by
  simp [relayed, List.filterMap_map, Function.comp_def]

/-- Without its pings, the output is the source. -/
theorem relayed_beats (b : Bool) (turns : List Turn) : relayed (beats b turns) = chunksOf turns := by
  induction turns generalizing b with
  | nil => rfl
  | cons turn turns ih =>
    rw [beats, relayed_append, ih]
    cases turn with
    | silent => cases b <;> rfl
    | chunk s => rfl

theorem relayed_heartbeat (interval : Int) (turns : List Turn) :
    relayed (withSseHeartbeat interval turns) = chunksOf turns := by
  unfold withSseHeartbeat
  split
  · exact relayed_map_chunk _
  · exact relayed_beats true turns

/-! ## 3. Where the boundary stands -/

/-- The last chunk that holds something. -/
def lastChunk (turns : List Turn) : Option (List Char) :=
  ((chunksOf turns).filter (· ≠ [])).getLast?

theorem lastChunk_concat (turns : List Turn) (turn : Turn) :
    lastChunk (turns ++ [turn]) =
      match turn with
      | .silent => lastChunk turns
      | .chunk s => if s = [] then lastChunk turns else some s := by
  unfold lastChunk
  rw [chunksOf_append]
  cases turn with
  | silent => simp [chunksOf]
  | chunk s =>
    by_cases hs : s = []
    · simp [chunksOf, hs]
    · simp [chunksOf, hs]

/-- The boundary is what the last chunk says. -/
theorem boundary_eq (turns : List Turn) :
    turns.foldl boundaryAfter true = (lastChunk turns).all endsEvent := by
  induction turns using List.reverseRecOn with
  | nil => rfl
  | append_singleton turns turn ih =>
    rw [List.foldl_append, List.foldl_cons, List.foldl_nil, ih, lastChunk_concat]
    cases turn with
    | silent => rfl
    | chunk s =>
      by_cases hs : s = []
      · simp [boundaryAfter, hs]
      · simp [boundaryAfter, hs]

/-- The text ends with the last chunk. -/
theorem textOf_eq (turns : List Turn) :
    (lastChunk turns = none ∧ textOf turns = []) ∨
      ∃ init s, lastChunk turns = some s ∧ s ≠ [] ∧ textOf turns = init ++ s := by
  induction turns using List.reverseRecOn with
  | nil => exact .inl ⟨rfl, rfl⟩
  | append_singleton turns turn ih =>
    have htext : textOf (turns ++ [turn]) = textOf turns ++ textOf [turn] := by
      unfold textOf
      rw [chunksOf_append, List.flatten_append]
    rw [lastChunk_concat, htext]
    cases turn with
    | silent => simpa [textOf, chunksOf] using ih
    | chunk s =>
      by_cases hs : s = []
      · simpa [textOf, chunksOf, hs] using ih
      · exact .inr ⟨textOf turns, s, by simp [hs], hs, by simp [textOf, chunksOf]⟩

theorem endsEvent_iff {s : List Char} : endsEvent s = true ↔ Blocks.EndsTwice '\n' s := by
  unfold endsEvent Blocks.EndsTwice
  exact List.isSuffixOf_iff_suffix

/-- Where the text of complete events has been relayed, the boundary is told, unless the last chunk
is the second end of line alone. -/
theorem boundary_iff {turns : List Turn}
    (h : textOf turns = [] ∨ Blocks.EndsTwice '\n' (textOf turns)) :
    turns.foldl boundaryAfter true = true ↔ lastChunk turns ≠ some ['\n'] := by
  rw [boundary_eq]
  rcases textOf_eq turns with ⟨hlast, -⟩ | ⟨init, s, hlast, hs, htext⟩
  · simp [hlast]
  · have hsuffix : ['\n', '\n'] <:+ init ++ s := by
      rcases h with hnil | hends
      · rw [htext] at hnil
        exact absurd (List.append_eq_nil_iff.mp hnil).2 hs
      · exact htext ▸ hends
    rw [hlast, Option.all_some, endsEvent_iff, ne_eq, Option.some_inj]
    constructor
    · rintro hends rfl
      exact absurd hends.length_le (by decide)
    · intro hlone
      rcases List.suffix_or_suffix_of_suffix hsuffix (List.suffix_append init s) with hlong | hshort
      · exact hlong
      · rcases List.suffix_cons_iff.mp hshort with rfl | hshort
        · exact List.suffix_rfl
        rcases List.suffix_cons_iff.mp hshort with rfl | hshort
        · exact absurd rfl hlone
        · exact absurd (List.suffix_nil.mp hshort) hs

/-- A boundary that is told is one. -/
theorem endsTwice_of_boundary {turns : List Turn} (h : turns.foldl boundaryAfter true = true) :
    textOf turns = [] ∨ Blocks.EndsTwice '\n' (textOf turns) := by
  rw [boundary_eq] at h
  rcases textOf_eq turns with ⟨-, htext⟩ | ⟨init, s, hlast, -, htext⟩
  · exact .inl htext
  · rw [hlast, Option.all_some, endsEvent_iff] at h
    exact .inr (htext ▸ h.trans (List.suffix_append init s))

/-! ## 4. Every ping, and every silence -/

/-- A ping was sent in a silence, at a boundary. -/
theorem silent_of_ping {b : Bool} {turns : List Turn} {x y : List Sent}
    (h : beats b turns = x ++ .ping :: y) :
    ∃ before after, turns = before ++ .silent :: after ∧ x = beats b before ∧
      before.foldl boundaryAfter b = true := by
  induction turns generalizing b x with
  | nil =>
    rw [beats] at h
    exact absurd h.symm (by simp)
  | cons turn turns ih =>
    rw [beats] at h
    -- The ping is of this turn, or of a later one.
    have hlater : ∀ x', x = sentBy b turn ++ x' →
        beats (boundaryAfter b turn) turns = x' ++ .ping :: y →
        ∃ before after, turn :: turns = before ++ .silent :: after ∧ x = beats b before ∧
          before.foldl boundaryAfter b = true := by
      rintro x' rfl hrest
      obtain ⟨before, after, rfl, rfl, hboundary⟩ := ih hrest
      exact ⟨turn :: before, after, rfl, rfl, hboundary⟩
    cases turn with
    | silent =>
      cases b with
      | false => exact hlater x rfl h
      | true =>
        cases x with
        | nil => exact ⟨[], turns, rfl, rfl, rfl⟩
        | cons s x =>
          rw [sentBy, if_pos rfl, List.cons_append, List.nil_append, List.cons_append,
            List.cons.injEq] at h
          obtain ⟨rfl, h⟩ := h
          exact hlater x rfl h
    | chunk s =>
      cases x with
      | nil =>
        rw [sentBy, List.nil_append, List.cons_append, List.cons.injEq] at h
        cases h.1
      | cons s' x =>
        rw [sentBy, List.cons_append, List.nil_append, List.cons_append, List.cons.injEq] at h
        obtain ⟨rfl, h⟩ := h
        exact hlater x rfl h

/-- The output for events that are relayed in turns: the source without its pings, each ping between
two events, and a ping in every silence between two events. -/
structure Sound (interval : Int) (events : List (List Char)) (turns : List Turn) : Prop where
  source : relayed (withSseHeartbeat interval turns) = chunksOf turns
  between : ∀ x y, withSseHeartbeat interval turns = x ++ .ping :: y →
    Blocks.Complete '\n' events (relayed x).flatten
  filled : ∀ before after, turns = before ++ .silent :: after →
    Blocks.Complete '\n' events (textOf before) →
    withSseHeartbeat interval (before ++ [.silent]) =
      withSseHeartbeat interval before ++ [.ping]

theorem textOf_begins (before after : List Turn) : textOf before <+: textOf (before ++ after) := by
  unfold textOf
  rw [chunksOf_append, List.flatten_append]
  exact List.prefix_append _ _

/-- No ping corrupts an event. -/
theorem complete_of_ping {interval : Int} {events : List (List Char)} {turns : List Turn}
    {x y : List Sent} (hevents : ∀ e ∈ events, Blocks.IsBlock '\n' e)
    (hcut : textOf turns <+: Blocks.wires '\n' events)
    (h : withSseHeartbeat interval turns = x ++ .ping :: y) :
    Blocks.Complete '\n' events (relayed x).flatten := by
  unfold withSseHeartbeat at h
  split at h
  · -- Turned off, it sends none.
    have hping : Sent.ping ∈ (chunksOf turns).map Sent.chunk := by
      rw [h]
      simp
    obtain ⟨s, -, hs⟩ := List.mem_map.mp hping
    cases hs
  · obtain ⟨before, after, rfl, rfl, hboundary⟩ := silent_of_ping h
    rw [relayed_beats]
    change Blocks.Complete '\n' events (textOf before)
    rcases endsTwice_of_boundary hboundary with hnil | hends
    · exact hnil ▸ Blocks.Complete.nil events
    · exact Blocks.Complete.of_endsTwice hevents ((textOf_begins before _).trans hcut) hends

/-- A silence is filled exactly if the heartbeat is on and the boundary is told. -/
theorem filled_iff {interval : Int} {before : List Turn}
    (h : textOf before = [] ∨ Blocks.EndsTwice '\n' (textOf before)) :
    withSseHeartbeat interval (before ++ [.silent]) =
        withSseHeartbeat interval before ++ [.ping] ↔
      0 < interval ∧ lastChunk before ≠ some ['\n'] := by
  unfold withSseHeartbeat
  by_cases hoff : interval ≤ 0
  · have hnone : chunksOf (before ++ [.silent]) = chunksOf before := by
      rw [chunksOf_append]
      exact List.append_nil _
    rw [if_pos hoff, if_pos hoff, hnone]
    constructor
    · intro hsame
      exact absurd (List.self_eq_append_right.mp hsame) (List.cons_ne_nil _ _)
    · intro hon
      omega
  · rw [if_neg hoff, if_neg hoff, beats_append, List.append_cancel_left_eq, ← boundary_iff h]
    have hon : 0 < interval := by omega
    cases before.foldl boundaryAfter true <;> simp [beats, sentBy, hon]

/-- **The heartbeat of a stream of events.**  However their text is cut and wherever it is silent,
the output is sound exactly if the heartbeat is on, and in no silence between two events the last
text that came was the second end of line alone. -/
theorem sound_iff {interval : Int} {events : List (List Char)} {turns : List Turn}
    (hevents : ∀ e ∈ events, Blocks.IsBlock '\n' e)
    (hcut : textOf turns <+: Blocks.wires '\n' events) :
    Sound interval events turns ↔
      ∀ before after, turns = before ++ .silent :: after →
        Blocks.Complete '\n' events (textOf before) →
        0 < interval ∧ lastChunk before ≠ some ['\n'] := by
  constructor
  · intro hsound before after hturns hcomplete
    exact (filled_iff hcomplete.endsTwice).mp (hsound.filled before after hturns hcomplete)
  · intro htold
    refine ⟨relayed_heartbeat interval turns, fun x y h => complete_of_ping hevents hcut h, ?_⟩
    intro before after hturns hcomplete
    exact (filled_iff hcomplete.endsTwice).mpr (htold before after hturns hcomplete)

/-! ## 5. One event, and a silence -/

/-- Where no chunk is one end of line, the boundary is always told. -/
theorem lastChunk_ne {before after : List Turn} (h : Turn.chunk ['\n'] ∉ before ++ after) :
    lastChunk before ≠ some ['\n'] := by
  intro hlast
  have hmem := List.mem_of_mem_filter (List.mem_of_getLast? hlast)
  refine h (List.mem_append_left after ?_)
  clear h hlast
  induction before with
  | nil => cases hmem
  | cons turn before ih =>
    cases turn with
    | silent => exact List.mem_cons_of_mem _ (ih hmem)
    | chunk s =>
      rcases List.mem_cons.mp hmem with rfl | hmem
      · exact List.mem_cons_self
      · exact List.mem_cons_of_mem _ (ih hmem)

theorem isBlock_data : ∀ e ∈ ["data: 1".toList], Blocks.IsBlock '\n' e := by
  intro e he
  rw [List.mem_singleton.mp he]
  exact .of_not_mem (by decide) (by decide)

/-- One event in one chunk, and two silences after it. -/
theorem sound_event : Sound 15 ["data: 1".toList]
    [.silent, .chunk "data: 1\n\n".toList, .silent, .silent] := by
  refine (sound_iff isBlock_data (by decide)).mpr fun before after hturns _ => ⟨by decide, ?_⟩
  have hlone : Turn.chunk ['\n'] ∉ before ++ .silent :: after := by
    rw [← hturns]
    decide
  exact lastChunk_ne hlone

/-- The event is cut between its two ends of line: the silence after it is not filled. -/
theorem not_sound_event :
    (∀ e ∈ ["data: 1".toList], Blocks.IsBlock '\n' e) ∧
      textOf [.chunk "data: 1\n".toList, .chunk ['\n'], .silent] =
        Blocks.wires '\n' ["data: 1".toList] ∧
      withSseHeartbeat 15 [.chunk "data: 1\n".toList, .chunk ['\n'], .silent] =
        [.chunk "data: 1\n".toList, .chunk ['\n']] ∧
      ¬ Sound 15 ["data: 1".toList] [.chunk "data: 1\n".toList, .chunk ['\n'], .silent] := by
  refine ⟨isBlock_data, by decide, by decide, fun hsound => ?_⟩
  have hfilled := hsound.filled [.chunk "data: 1\n".toList, .chunk ['\n']] [] rfl ⟨1, by decide⟩
  exact absurd hfilled (by decide)

end Apowerb.Run.Heartbeat
