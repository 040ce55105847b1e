/-
# What is left of a long history

`core/agent_helpers/callbacks.py`: before a model is called, a history of more than `keep_recent`
messages is cut to the first of the user and the last `keep_recent`.  Results of tools that the cut
leaves in front are taken off, for their calls are gone; and texts that fell out come back, the
newest first, as long as they fit.

* `truncate_kept`: what is kept is a valid conversation.  Each result still follows its calls, each
  call is still followed by its results, and what came back is text.

A part of a message is what the code reads of it; a call and its result are known by an id.  A
message stands in the history with its place, since two may be equal.
-/
import Mathlib.Algebra.BigOperators.Group.List.Basic
import Mathlib.Algebra.GroupWithZero.Nat
import Apowerb.Text

namespace Apowerb.Agent.History

/-! ## 1. Messages -/

/-- A part of a message. -/
structure Part where
  text : Option String
  thought : Bool
  functionCall : Option String
  functionResponse : Option String
deriving DecidableEq, Repr

/-- A message. -/
structure Content where
  role : String
  parts : List Part
deriving DecidableEq, Repr

/-- `_content_has_function_response`. -/
def hasFunctionResponse (c : Content) : Bool := c.parts.any (·.functionResponse.isSome)

/-- A part that is plain text. -/
def Part.isText (p : Part) : Bool :=
  p.text.any (· ≠ "") && !p.thought && p.functionCall.isNone && p.functionResponse.isNone

/-- `_text_only`. -/
def textOnly (c : Content) : Bool := !c.parts.isEmpty && c.parts.all Part.isText

/-- `sum(len(p.text) for p in content.parts)`. -/
def chars (c : Content) : Nat := (c.parts.map fun p => (p.text.getD "").length).sum

/-! ## 2. The cut -/

/-- The loop of `_recent_texts`, from the newest message on. -/
def recentLoop (budget : Nat) : Nat → List Content → List Content
  | _, [] => []
  | used, c :: rest =>
    if textOnly c then
      if budget < used + chars c then [] else c :: recentLoop budget (used + chars c) rest
    else recentLoop budget used rest

/-- `_recent_texts`. -/
def recentTexts (dropped : List Content) (budget : Nat) : List Content :=
  (recentLoop budget 0 dropped.reverse).reverse

/-- `contents[-n:]`. -/
def lastContents (n : Nat) (contents : List Content) : List Content :=
  if n = 0 then contents else contents.drop (contents.length - n)

/-- A result of a tool that has lost its call. -/
def isOrphan (c : Content) : Bool := c.role == "tool" || hasFunctionResponse c

/-- `create_truncate_history_callback`: the messages that are left. -/
def truncateHistory (keepRecent keepTextChars : Nat) (contents : List Content) : List Content :=
  let total := contents.length
  if total ≤ keepRecent + 1 then contents
  else match contents.findIdx? (·.role == "user"), contents.find? (·.role == "user") with
    | some i, some userInitial =>
      let window := (lastContents keepRecent contents).dropWhile isOrphan
      if total - keepRecent ≤ i then window
      else
        let texts :=
          if 0 < keepTextChars then
            recentTexts ((contents.take (total - window.length)).drop (i + 1)) keepTextChars
          else []
        userInitial :: texts ++ window
    | _, _ => contents

/-! ## 3. Texts that come back -/

/-- The texts of the newest messages, as many as fit. -/
theorem recentLoop_eq (budget used : Nat) (newest : List Content) (h : used ≤ budget) :
    ∃ k, recentLoop budget used newest = (newest.take k).filter textOnly ∧
      used + ((recentLoop budget used newest).map chars).sum ≤ budget := by
  induction newest generalizing used with
  | nil => exact ⟨0, rfl, h⟩
  | cons c rest ih =>
    rw [recentLoop]
    by_cases htext : textOnly c = true
    · rw [if_pos htext]
      split
      · exact ⟨0, rfl, h⟩
      · next hfits =>
        obtain ⟨k, hk, hsum⟩ := ih (used + chars c) (by omega)
        refine ⟨k + 1, ?_, ?_⟩
        · rw [List.take_succ_cons, List.filter_cons_of_pos htext, hk]
        · rw [List.map_cons, List.sum_cons, ← Nat.add_assoc]
          exact hsum
    · rw [if_neg htext]
      obtain ⟨k, hk, hsum⟩ := ih used h
      exact ⟨k + 1, by rw [List.take_succ_cons, List.filter_cons_of_neg htext, hk], hsum⟩

theorem recentTexts_eq (dropped : List Content) (budget : Nat) :
    ∃ older newer, dropped = older ++ newer ∧
      recentTexts dropped budget = newer.filter textOnly ∧
      ((recentTexts dropped budget).map chars).sum ≤ budget := by
  obtain ⟨k, hk, hsum⟩ := recentLoop_eq budget 0 dropped.reverse (Nat.zero_le budget)
  refine ⟨(dropped.reverse.drop k).reverse, (dropped.reverse.take k).reverse, ?_, ?_, ?_⟩
  · rw [← List.reverse_append, List.take_append_drop, List.reverse_reverse]
  · rw [recentTexts, hk, List.filter_reverse]
  · rw [recentTexts, List.map_reverse, List.sum_reverse]
    omega

/-! ## 4. The parts of a cut history -/

/-- A history that begins with the user is cut into a part that is gone, a part of which the texts
come back, and the window; a window that is cut off begins with no result. -/
theorem truncate_parts {first : Content} {keepRecent : Nat} (rest : List Content)
    (keepTextChars : Nat) (huser : first.role = "user") (hrecent : 1 ≤ keepRecent) :
    ∃ older newer window, rest = older ++ newer ++ window ∧
      truncateHistory keepRecent keepTextChars (first :: rest) =
        first :: (newer.filter textOnly ++ window) ∧
      ((newer.filter textOnly).map chars).sum ≤ keepTextChars ∧ window.length ≤ keepRecent ∧
      (older ++ newer ≠ [] → ∀ c, window.head? = some c → isOrphan c = false) := by
  unfold truncateHistory
  dsimp only
  split
  · next hshort =>
    rw [List.length_cons] at hshort
    exact ⟨[], [], rest, rfl, rfl, Nat.zero_le _, by omega, fun hne => absurd rfl hne⟩
  · next hlong =>
    rw [List.length_cons] at hlong
    have hrole : (first.role == "user") = true := beq_iff_eq.mpr huser
    have hlast : lastContents keepRecent (first :: rest) = rest.drop (rest.length - keepRecent) := by
      rw [lastContents, if_neg (by omega), List.length_cons,
        show rest.length + 1 - keepRecent = rest.length - keepRecent + 1 by omega, List.drop_succ_cons]
    have hfind : (first :: rest).find? (·.role == "user") = some first := by
      rw [List.find?_cons, hrole]
    rw [List.findIdx?_cons, if_pos hrole, hfind, hlast]
    simp only [List.length_cons]
    rw [if_neg (by omega)]
    generalize hwindow : (rest.drop (rest.length - keepRecent)).dropWhile isOrphan = window
    have hsuffix : window <:+ rest := by
      rw [← hwindow]
      exact (List.dropWhile_suffix _).trans (List.drop_suffix _ _)
    obtain ⟨dropped, hrest⟩ := hsuffix
    have hslice : ((first :: rest).take (rest.length + 1 - window.length)).drop (0 + 1) =
        dropped := by
      have hlength : rest.length + 1 - window.length = dropped.length + 1 := by
        rw [← hrest, List.length_append]
        omega
      rw [hlength, List.take_succ_cons, ← hrest, List.take_left]
      rfl
    have hlength : window.length ≤ keepRecent := by
      have hle := (List.dropWhile_suffix (l := rest.drop (rest.length - keepRecent)) isOrphan).length_le
      rw [hwindow, List.length_drop] at hle
      omega
    have hhead : ∀ c, window.head? = some c → isOrphan c = false := by
      intro c hc
      have hnot := List.head?_dropWhile_not isOrphan (rest.drop (rest.length - keepRecent))
      rw [hwindow, hc] at hnot
      simpa using hnot
    rw [hslice]
    split
    · obtain ⟨older, newer, hdropped, htexts, hsum⟩ := recentTexts_eq dropped keepTextChars
      refine ⟨older, newer, window, ?_, ?_, ?_, hlength, fun _ => hhead⟩
      · rw [← hdropped, hrest]
      · rw [htexts]
        rfl
      · rw [← htexts]
        exact hsum
    · refine ⟨dropped, [], window, ?_, rfl, Nat.zero_le _, hlength, fun _ => hhead⟩
      rw [List.append_nil, hrest]

/-! ## 5. What is kept -/

/-- Each result of a tool directly follows the message that holds its call. -/
def Paired (contents : List Content) : Prop :=
  ∀ i c, contents[i]? = some c → ∀ p ∈ c.parts, ∀ id, p.functionResponse = some id →
    1 ≤ i ∧ ∃ b, contents[i - 1]? = some b ∧ ∃ q ∈ b.parts, q.functionCall = some id

/-- A message without a call and without a result. -/
def Plain (c : Content) : Prop :=
  ∀ p ∈ c.parts, p.functionCall = none ∧ p.functionResponse = none

/-- What is kept of a history, each message with its place: the first, those that came back, and the
window. -/
structure Kept (keepRecent keepTextChars : Nat) (contents : List Content)
    (first : Content × Nat) (readded window : List (Content × Nat)) : Prop where
  order : (first :: (readded ++ window)).Sublist contents.zipIdx
  results : ∀ e ∈ first :: (readded ++ window), ∀ p ∈ e.1.parts, ∀ id,
    p.functionResponse = some id → 1 ≤ e.2 ∧
      ∃ b, (b, e.2 - 1) ∈ first :: (readded ++ window) ∧ ∃ q ∈ b.parts, q.functionCall = some id
  calls : ∀ e ∈ first :: (readded ++ window), (∃ p ∈ e.1.parts, p.functionCall.isSome = true) →
    ∀ d, (d, e.2 + 1) ∈ contents.zipIdx → (d, e.2 + 1) ∈ first :: (readded ++ window)
  recent : window.length ≤ keepRecent
  texts : ∀ e ∈ readded, textOnly e.1 = true
  newest : ∀ e ∈ readded, ∀ d ∈ contents.zipIdx, e.2 < d.2 → textOnly d.1 = true →
    d ∈ readded ++ window
  budget : (readded.map fun e => chars e.1).sum ≤ keepTextChars

theorem plain_of_textOnly {c : Content} (h : textOnly c = true) : Plain c := by
  intro p hp
  have hall := (Bool.and_eq_true_iff.mp h).2
  have hpart := List.all_eq_true.mp hall p hp
  simp only [Part.isText, Bool.and_eq_true, Option.isNone_iff_eq_none] at hpart
  exact ⟨hpart.1.2, hpart.2⟩

theorem mem_zipIdx_append {pre window : List Content} {e : Content × Nat} :
    e ∈ window.zipIdx pre.length ↔ pre.length ≤ e.2 ∧ (pre ++ window)[e.2]? = some e.1 := by
  rw [List.mem_zipIdx_iff_le_and_getElem?_sub]
  refine and_congr_right fun hle => ?_
  rw [List.getElem?_append_right hle]

/-- **What is kept is a valid conversation.** -/
theorem truncate_kept {first : Content} {rest : List Content} {keepRecent : Nat}
    (keepTextChars : Nat) (huser : first.role = "user") (hplain : Plain first)
    (hpaired : Paired (first :: rest)) (hrecent : 1 ≤ keepRecent) :
    ∃ readded window, Kept keepRecent keepTextChars (first :: rest) (first, 0) readded window ∧
      truncateHistory keepRecent keepTextChars (first :: rest) =
        ((first, 0) :: (readded ++ window)).map (·.1) := by
  obtain ⟨older, newer, window, rfl, hkept, hsum, hlength, hhead⟩ :=
    truncate_parts rest keepTextChars huser hrecent
  let before := first :: older
  let pre := before ++ newer
  have hcontents : first :: (older ++ newer ++ window) = pre ++ window := rfl
  let back := (newer.zipIdx before.length).filter fun e => textOnly e.1
  have hnumbered : (pre ++ window).zipIdx =
      (first, 0) :: (older.zipIdx 1 ++ newer.zipIdx before.length ++ window.zipIdx pre.length) := by
    change (before ++ newer ++ window).zipIdx = _
    rw [List.zipIdx_append, List.zipIdx_append, Nat.zero_add, Nat.zero_add]
    rfl
  have hback : back.map (·.1) = newer.filter textOnly := by
    have hnewer : (newer.zipIdx before.length).map (·.1) = newer := List.zipIdx_map_fst _ _
    conv_rhs => rw [← hnewer, List.filter_map]
    rfl
  -- A message with a call or a result is in the window.
  have hwindow : ∀ e ∈ (first, 0) :: (back ++ window.zipIdx pre.length), ¬ Plain e.1 →
      e ∈ window.zipIdx pre.length := by
    intro e he hcalls
    rcases List.mem_cons.mp he with rfl | he
    · exact absurd hplain hcalls
    · rcases List.mem_append.mp he with he | he
      · exact absurd (plain_of_textOnly (by simpa using (List.mem_filter.mp he).2)) hcalls
      · exact he
  refine ⟨back, window.zipIdx pre.length, ?_, ?_⟩
  · rw [hcontents] at hpaired ⊢
    refine ⟨?_, ?_, ?_, by simpa using hlength, ?_, ?_, ?_⟩
    · rw [hnumbered]
      refine (List.Sublist.append_right ?_ _).cons_cons _
      exact List.filter_sublist.trans (List.sublist_append_right _ _)
    · intro e he p hp id hid
      have hmem := hwindow e he fun hnone => by simp [(hnone p hp).2] at hid
      obtain ⟨hle, hget⟩ := mem_zipIdx_append.mp hmem
      obtain ⟨hpos, b, hb, hcall⟩ := hpaired e.2 e.1 hget p hp id hid
      refine ⟨hpos, b, ?_, hcall⟩
      by_cases hfirst : pre.length ≤ e.2 - 1
      · exact List.mem_cons_of_mem _ (List.mem_append_right _ (mem_zipIdx_append.mpr ⟨hfirst, hb⟩))
      · -- The first of the window is a result only if nothing is cut off.
        have hplace : e.2 = pre.length := by omega
        have hc : window.head? = some e.1 := by
          rw [hplace, List.getElem?_append_right (Nat.le_refl _), Nat.sub_self] at hget
          rw [List.head?_eq_getElem?]
          exact hget
        have hempty : older ++ newer = [] := by
          by_contra hne
          have horphan := hhead hne e.1 hc
          have hresult : hasFunctionResponse e.1 = true :=
            List.any_eq_true.mpr ⟨p, hp, by rw [hid]; rfl⟩
          rw [isOrphan, hresult, Bool.or_true] at horphan
          cases horphan
        have hpre : pre = [first] := by
          change first :: (older ++ newer) = [first]
          rw [hempty]
        rw [hplace, hpre] at hb ⊢
        cases hb
        exact List.mem_cons_self
    · rintro e he ⟨p, hp, hcall⟩ d hd
      have hmem := hwindow e he fun hnone => by simp [(hnone p hp).1] at hcall
      obtain ⟨hle, -⟩ := mem_zipIdx_append.mp hmem
      refine List.mem_cons_of_mem _ (List.mem_append_right _ (mem_zipIdx_append.mpr ⟨?_, ?_⟩))
      · exact Nat.le_succ_of_le hle
      · exact List.mem_zipIdx_iff_getElem?.mp hd
    · intro e he
      simpa using (List.mem_filter.mp he).2
    · intro e he d hd hlt htext
      have hafter : before.length ≤ e.2 :=
        (List.mem_zipIdx_iff_le_and_getElem?_sub.mp (List.mem_filter.mp he).1).1
      rw [hnumbered] at hd
      rcases List.mem_cons.mp hd with rfl | hd
      · omega
      rcases List.mem_append.mp hd with hd | hd
      · rcases List.mem_append.mp hd with hd | hd
        · have hbound := (List.mem_zipIdx hd).2.1
          simp only [before, List.length_cons] at hafter
          omega
        · exact List.mem_append_left _ (List.mem_filter.mpr ⟨hd, by simpa using htext⟩)
      · exact List.mem_append_right _ hd
    · have hsum' : ((back.map (·.1)).map chars).sum ≤ keepTextChars := by
        rw [hback]
        exact hsum
      rwa [List.map_map] at hsum'
  · rw [hkept, List.map_cons, List.map_append, hback, List.zipIdx_map_fst]

/-! ## 6. One conversation -/

/-- A message of one text. -/
def textMessage (role text : String) : Content := ⟨role, [⟨some text, false, none, none⟩]⟩

/-- Two questions; the answer of the second calls a tool. -/
def conversation : List Content :=
  [textMessage "model" "answer 1", textMessage "user" "question 2",
    ⟨"model", [⟨none, false, some "call 1", none⟩]⟩, ⟨"user", [⟨none, false, none, some "call 1"⟩]⟩]

/-- Cut to its last message, the history loses a result with its call, and two texts come back. -/
theorem truncate_conversation :
    ∃ readded window,
      Kept 1 20 (textMessage "user" "question 1" :: conversation)
        (textMessage "user" "question 1", 0) readded window ∧
      truncateHistory 1 20 (textMessage "user" "question 1" :: conversation) =
        ((textMessage "user" "question 1", 0) :: (readded ++ window)).map (·.1) := by
  have hplain : Plain (textMessage "user" "question 1") := plain_of_textOnly (by decide)
  have hpaired : Paired (textMessage "user" "question 1" :: conversation) := by
    intro i c hget p hp id hid
    -- Only the last message holds a result.
    have hresult : ∀ e ∈ (textMessage "user" "question 1" :: conversation).zipIdx,
        hasFunctionResponse e.1 = true → e = (⟨"user", [⟨none, false, none, some "call 1"⟩]⟩, 4) := by
      decide
    have hlast := hresult (c, i) (List.mem_zipIdx_iff_getElem?.mpr hget)
      (List.any_eq_true.mpr ⟨p, hp, by rw [hid]; rfl⟩)
    cases hlast
    rw [List.mem_singleton.mp hp] at hid
    cases hid
    exact ⟨by decide, _, rfl, _, List.mem_singleton.mpr rfl, rfl⟩
  exact truncate_kept 20 rfl hplain hpaired (by decide)

example : truncateHistory 1 20 (textMessage "user" "question 1" :: conversation) =
    [textMessage "user" "question 1", textMessage "model" "answer 1",
      textMessage "user" "question 2"] := by decide

end Apowerb.Agent.History
