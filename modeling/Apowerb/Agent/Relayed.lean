/-
# What a stream relays

An event is a line of an answer that begins with `data: ` and holds an object; it is a tool event
where the object, or a part of its content, holds a function call or a function response.

* `toolEvent_of_blank`: the guard calls no answer blank that holds a tool event.  The guard cuts lines
  at more characters than a stream of events does, but what it reads of an event is the event or
  nothing.
* `stream_faithful`: what the retries keep.
-/
import Apowerb.Agent.Stream
import Apowerb.Json.Written

namespace Apowerb.Agent.Stream

/-! ## 1. Tool events -/

/-- An object with a function call or a function response. -/
def holdsTool (data : Dict) : Bool :=
  anyKey toolKeys data ||
    match Dict.get data "content" with
    | .dict content =>
      match Dict.get content "parts" with
      | .list parts => parts.any fun part =>
        match part with
        | .dict part => anyKey toolKeys part
        | _ => false
      | _ => false
    | _ => false

/-- An answer with a tool event. -/
def toolEvent (text : String) : Bool :=
  (Lines.cut Lines.eventEnd text.toList).any fun line => (lineData line).any holdsTool

/-- A line that is an error event. -/
def errorLine (line : List Char) : Bool := (lineData line).any (anyKey errorKeys)

/-! ## 2. The guard -/

theorem orShows_eq_false {a b : Except Raised Bool} :
    orShows a b = .ok false ↔ a = .ok false ∧ b = .ok false := by
  cases a with
  | error e =>
    constructor
    · intro h
      cases h
    · rintro ⟨h, -⟩
      cases h
  | ok shown =>
    cases shown with
    | true =>
      constructor
      · intro h
        cases h
      · rintro ⟨h, -⟩
        cases h
    | false => exact ⟨fun h => ⟨rfl, h⟩, fun h => h.2⟩

theorem anyShows_eq_false {α : Type} {check : α → Except Raised Bool} {xs : List α} :
    anyShows check xs = .ok false ↔ ∀ x ∈ xs, check x = .ok false := by
  induction xs with
  | nil => simp [anyShows]
  | cons x xs ih => simp [anyShows, orShows_eq_false, ih]

/-- The keys of a tool are among those of a part. -/
theorem anyKey_parts {d : Dict} (h : anyKey toolKeys d = true) : anyKey contentPartKeys d = true := by
  unfold anyKey contentPartKeys at *
  rw [List.any_append, h, Bool.true_or]

/-- The guard does not pass over an object with a tool. -/
theorem dataShows_of_tool {data : Dict} (h : holdsTool data = true) :
    dataShows (.dict data) ≠ .ok false := by
  intro hblank
  simp only [dataShows, orShows_eq_false] at hblank
  obtain ⟨-, hcontent, hkeys, -⟩ := hblank
  rcases Bool.or_eq_true_iff.mp h with htop | hpart
  · simp [anyKey_parts htop] at hkeys
  · split at hpart
    · rename_i content hget
      rw [hget] at hcontent
      split at hpart
      · rename_i parts hparts
        obtain ⟨part, hmem, htool⟩ := List.any_eq_true.mp hpart
        cases part with
        | dict part =>
          have hlist : ((Dict.getOr content "parts" (.list [])).orElse (.list [])).iter =
              .ok parts := by
            have hlookup : content.lookup "parts" = some (.list parts) := by
              unfold Dict.get at hparts
              cases hl : content.lookup "parts" with
              | none => simp [hl] at hparts
              | some v => simpa [hl] using hparts
            have hne : parts ≠ [] := List.ne_nil_of_mem hmem
            simp [Dict.getOr, hlookup, Value.orElse, Value.truthy, hne, Value.iter]
          have hshown : anyShows partShows parts = .ok false := by
            simpa [contentShows, hlist, bind, Except.bind] using hcontent
          have hblank := anyShows_eq_false.mp hshown _ hmem
          simp [partShows, orShows_eq_false, anyKey_parts htool] at hblank
        | _ => cases htool
      · cases hpart
    · cases hpart

/-- White space behind a character that is none. -/
theorem rdropWhile_append_cons {α : Type} {p : α → Bool} {c : α} (hc : p c = false)
    (xs ys : List α) : (xs ++ c :: ys).rdropWhile p = xs ++ c :: ys.rdropWhile p := by
  unfold List.rdropWhile
  rw [List.reverse_append, List.reverse_cons, List.append_assoc, List.dropWhile_append]
  split
  · rename_i hall
    rw [List.isEmpty_iff.mp hall]
    simp [hc]
  · simp

theorem stripChars_ne_nil {c : Char} {cs : List Char} (hc : c ∈ cs)
    (hspace : Text.isSpace c = false) : Text.stripChars cs ≠ [] := by
  intro hnil
  have hall := List.rdropWhile_eq_nil_iff.mp hnil
  cases hdrop : cs.dropWhile Text.isSpace with
  | nil =>
    have hblank := List.dropWhile_eq_nil_iff.mp hdrop c hc
    rw [hspace] at hblank
    cases hblank
  | cons b rest =>
    have hhead := List.head?_dropWhile_not Text.isSpace cs
    rw [hdrop] at hall hhead
    exact absurd (hall b (List.mem_cons_self ..)) (by simpa using hhead)

theorem lineData_eq_some {line : List Char} {data : Dict} (h : lineData line = some data) :
    ∃ d, line = "data: ".toList ++ d ∧ Json.loads d = some (.dict data) := by
  unfold lineData at h
  split at h
  · rename_i heq
    cases h
    obtain ⟨d, hd, hloads⟩ := Option.bind_eq_some_iff.mp heq
    exact ⟨d, Text.afterWord_eq_some.mp hd, hloads⟩
  · cases h

/-- The guard reads a tool event of a line, or takes the line for content. -/
theorem lineShows_of_tool {line : List Char} {data : Dict}
    (hline : ∀ c ∈ line, Lines.eventEnd c = false) (hdata : lineData line = some data)
    (htool : holdsTool data = true) :
    lineShows (line.takeWhile (!Lines.pythonEnd ·)) ≠ .ok false := by
  obtain ⟨d, hcut, hloads⟩ := lineData_eq_some hdata
  obtain ⟨ws, x, hbracket, hws⟩ := Json.loads_dict hloads
  -- The line up to its first end, without the white space behind.
  have hplain : ∀ c ∈ ws, Lines.pythonEnd c = false := by
    intro c hc
    have hend : Lines.eventEnd c = false := hline c (by rw [hcut, hbracket]; simp [hc])
    have hspace := hws c hc
    simp only [Json.isWs, Bool.or_eq_true, decide_eq_true_eq] at hspace
    rcases hspace with ((rfl | rfl) | rfl) | rfl
    · decide
    · decide
    · exact absurd hend (by decide)
    · exact absurd hend (by decide)
  let y := x.takeWhile (!Lines.pythonEnd ·)
  have htake : line.takeWhile (!Lines.pythonEnd ·) = "data: ".toList ++ (ws ++ '{' :: y) := by
    have hmark : ("data: ".toList.all (!Lines.pythonEnd ·)) = true := rfl
    rw [hcut, hbracket, List.takeWhile_append_of_pos (List.all_eq_true.mp hmark),
      List.takeWhile_append_of_pos fun c hc => by simp [hplain c hc]]
    rfl
  have hstrip : Text.stripChars ("data: ".toList ++ (ws ++ '{' :: y)) =
      "data: ".toList ++ (ws ++ '{' :: y.rdropWhile Text.isSpace) := by
    have hspace : Text.isSpace '{' = false := by decide
    have hfront : ("data: ".toList ++ (ws ++ '{' :: y)).dropWhile Text.isSpace =
        "data: ".toList ++ (ws ++ '{' :: y) := rfl
    rw [Text.stripChars, hfront, ← List.append_assoc, rdropWhile_append_cons hspace,
      List.append_assoc]
  -- What is left of the object is read as the object, or not at all.
  obtain ⟨after, hafter⟩ : ∃ after, d = (ws ++ '{' :: y.rdropWhile Text.isSpace) ++ after := by
    refine ⟨y.rtakeWhile Text.isSpace ++ x.dropWhile (!Lines.pythonEnd ·), ?_⟩
    have hy : y.rdropWhile Text.isSpace ++ y.rtakeWhile Text.isSpace = y :=
      List.rdropWhile_append_rtakeWhile ..
    have hx : y ++ x.dropWhile (!Lines.pythonEnd ·) = x := List.takeWhile_append_dropWhile
    have hcutx : x = y.rdropWhile Text.isSpace ++
        (y.rtakeWhile Text.isSpace ++ x.dropWhile (!Lines.pythonEnd ·)) := by
      rw [← List.append_assoc, hy, hx]
    rw [hbracket, List.append_assoc, List.cons_append, ← hcutx]
  have hdone : ws ++ '{' :: y.rdropWhile Text.isSpace ≠ "[DONE]".toList := by
    intro hdone
    have hmem : '{' ∈ "[DONE]".toList := by
      rw [← hdone]
      simp
    exact absurd hmem (by decide)
  rw [htake, lineShows, hstrip, Text.afterWord_eq_some.mpr rfl]
  simp only [if_neg hdone]
  split
  · have hshown : Text.stripChars (ws ++ '{' :: y.rdropWhile Text.isSpace) ≠ [] :=
      stripChars_ne_nil (c := '{') (by simp) (by decide)
    simp [hshown]
  · rename_i v hv
    rw [(Json.loads_prefix (hafter ▸ hloads) hv).1]
    exact dataShows_of_tool htool

/-- **The guard calls no answer blank that holds a tool event.** -/
theorem toolEvent_of_blank {text : String} (h : streamIsEmpty text = .ok true) :
    toolEvent text = false := by
  by_contra htool
  rw [Bool.not_eq_false] at htool
  obtain ⟨line, hline, htool⟩ := List.any_eq_true.mp htool
  cases hdata : lineData line with
  | none => simp [hdata] at htool
  | some data =>
    replace htool : holdsTool data = true := by simpa [hdata] using htool
    unfold streamIsEmpty at h
    split at h
    · -- The object of the line is not white space.
      rename_i hspace
      obtain ⟨d, hcut, hloads⟩ := lineData_eq_some hdata
      obtain ⟨ws, x, hbracket, -⟩ := Json.loads_dict hloads
      have hmem : '{' ∈ line := by
        rw [hcut, hbracket]
        simp
      refine stripChars_ne_nil (Lines.subset_of_mem hline _ hmem) (by decide) ?_
      simpa [Text.strip] using hspace
    · have hsub : ∀ c, Lines.eventEnd c = true → Lines.pythonEnd c = true := by
        intro c hc
        simp only [Lines.eventEnd, Bool.or_eq_true, decide_eq_true_eq] at hc
        rcases hc with rfl | rfl <;> decide
      have hblank : anyShows lineShows (Lines.cut Lines.pythonEnd text.toList) = .ok false := by
        cases hshows : anyShows lineShows (Lines.cut Lines.pythonEnd text.toList) with
        | error e => simp [hshows, Except.map] at h
        | ok shown => simpa [hshows, Except.map] using h
      exact lineShows_of_tool (Lines.not_end_of_mem hline) hdata htool
        (anyShows_eq_false.mp hblank _ (Lines.cut_refine hsub hline))

/-! ## 3. One answer -/

variable {name : String → String} {chunks relayed : List String} {buffer : Option String}
  {chunk text : String}

/-- A chunk without a mark or an error event. -/
def Quiet (chunk : String) : Prop :=
  chunkSignalsRateLimit chunk = false ∧
    ∀ line ∈ chunk.toList.splitOn '\n', errorLine line = false

/-- The chunks before the first mark. -/
def beforeMark (up : Upstream) : List String :=
  (streamOnce up).takeWhile (!chunkSignalsRateLimit ·)

/-- No mark of an answer comes after a tool event of it. -/
def EarlyMarks (up : Upstream) : Prop :=
  (streamOnce up).any chunkSignalsRateLimit = true →
    toolEvent (String.join ((beforeMark up).map nameProviderRefusals)) = false

instance (chunk : String) : Decidable (Quiet chunk) := inferInstanceAs (Decidable (_ ∧ _))

instance (up : Upstream) : Decidable (EarlyMarks up) := inferInstanceAs (Decidable (_ → _))

/-- An answer that the guard calls blank. -/
def Blank (cfg : Config) (texts : List String) : Prop :=
  cfg.emptyFallbackEnabled = true ∧ (String.join texts).length ≤ guardBufferCap ∧
    streamIsEmpty (String.join texts) = .ok true

theorem push_eq_some {buffer : Option String} (h : push buffer chunk = some text) :
    ∃ before, buffer = some before ∧ text = before ++ chunk ∧ text.length ≤ guardBufferCap := by
  obtain ⟨before, hbefore, hpush⟩ := Option.bind_eq_some_iff.mp h
  split at hpush
  · cases hpush
  · rename_i hfits
    cases hpush
    exact ⟨before, hbefore, rfl, Nat.le_of_not_lt hfits⟩

/-- At the end of an answer the buffer is what was relayed. -/
theorem relay_ended (h : relay name buffer chunks = (relayed, .ended (some text))) :
    relayed = chunks.map name ∧ (∀ c ∈ chunks, chunkSignalsRateLimit c = false) ∧
      ∃ before, buffer = some before ∧ text = before ++ String.join relayed ∧
        (before.length ≤ guardBufferCap → text.length ≤ guardBufferCap) := by
  induction chunks generalizing buffer relayed with
  | nil =>
    cases h
    exact ⟨rfl, by simp, text, rfl, by simp, id⟩
  | cons chunk rest ih =>
    simp only [relay] at h
    split at h
    · cases h
    · rename_i hmark
      cases hrest : relay name (push buffer (name chunk)) rest with
      | mk out scan =>
        rw [hrest] at h
        cases h
        obtain ⟨rfl, hquiet, mid, hpush, htext, hfits⟩ := ih hrest
        obtain ⟨before, rfl, rfl, hmid⟩ := push_eq_some hpush
        refine ⟨rfl, ?_, before, rfl, ?_, fun _ => hfits hmid⟩
        · intro c hc
          rcases List.mem_cons.mp hc with rfl | hc
          · exact Bool.eq_false_iff.mpr hmark
          · exact hquiet c hc
        · rw [htext, String.join_cons, String.append_assoc]

/-- At a mark the chunks before it have been relayed. -/
theorem relay_marked (h : relay name buffer chunks = (relayed, .marked chunk)) :
    relayed = (chunks.takeWhile (!chunkSignalsRateLimit ·)).map name ∧
      chunks.any chunkSignalsRateLimit = true := by
  induction chunks generalizing buffer relayed with
  | nil => cases h
  | cons c rest ih =>
    simp only [relay] at h
    split at h
    · rename_i hmark
      cases h
      simp [hmark]
    · rename_i hmark
      cases hrest : relay name (push buffer (name c)) rest with
      | mk out scan =>
        rw [hrest] at h
        cases h
        obtain ⟨rfl, hany⟩ := ih hrest
        exact ⟨by simp [hmark], by simp [hany]⟩

theorem isBlank_iff : isBlank buffer = true ↔
    ∃ text, buffer = some text ∧ streamIsEmpty text = .ok true := by
  unfold isBlank
  cases buffer with
  | none => simp
  | some text =>
    constructor
    · intro h
      refine ⟨text, rfl, ?_⟩
      split at h
      · rename_i heq
        simpa using heq
      · cases h
    · rintro ⟨text', heq, hempty⟩
      cases heq
      simp [hempty]

/-- A blank answer has relayed no tool event. -/
theorem toolEvent_of_isBlank (h : relay name (some "") chunks = (relayed, .ended buffer))
    (hblank : isBlank buffer = true) : toolEvent (String.join relayed) = false := by
  obtain ⟨text, rfl, hempty⟩ := isBlank_iff.mp hblank
  obtain ⟨-, -, before, hbefore, htext, -⟩ := relay_ended h
  cases hbefore
  rw [String.empty_append] at htext
  exact toolEvent_of_blank (htext ▸ hempty)

/-! ## 4. The requests -/

variable {cfg : Config} {ups : Nat → Upstream}

theorem mem_dropLast_cons {α : Type} {x a : α} {xs : List α} (h : x ∈ (a :: xs).dropLast) :
    (x = a ∧ xs ≠ []) ∨ x ∈ xs.dropLast := by
  cases xs with
  | nil => cases h
  | cons b xs =>
    rcases List.mem_cons.mp h with rfl | h
    · exact .inl ⟨rfl, by simp⟩
    · exact .inr h

/-- The turns after a blank one repeat no tool event. -/
theorem emptyTurns_keep (n k : Nat) :
    ∀ sent ∈ (emptyTurns ups n k).2.dropLast, toolEvent (String.join sent.relayed) = false := by
  induction n generalizing k with
  | zero =>
    intro sent hsent
    cases hsent
  | succ n ih =>
    intro sent hsent
    unfold emptyTurns at hsent
    cases hrelay : relay id (some "") (streamOnce (ups k)) with
    | mk relayed scan =>
      rw [hrelay] at hsent
      cases scan with
      | marked chunk => cases hsent
      | ended buffer =>
        dsimp only at hsent
        split at hsent
        · rename_i hblank
          rcases mem_dropLast_cons hsent with ⟨rfl, -⟩ | hsent
          · exact toolEvent_of_isBlank hrelay hblank
          · exact ih (k + 1) sent hsent
        · cases hsent

theorem emptyTurns_length (n k : Nat) : (emptyTurns ups n k).2.length ≤ n := by
  induction n generalizing k with
  | zero => exact Nat.le_refl 0
  | succ n ih =>
    unfold emptyTurns
    cases relay id (some "") (streamOnce (ups k)) with
    | mk relayed scan =>
      cases scan with
      | marked chunk => simp
      | ended buffer =>
        dsimp only
        split
        · simpa using ih (k + 1)
        · simp

/-- What follows an answer that ended repeats no tool event. -/
theorem ended_keep {k : Nat}
    (hrelay : relay name (some "") (streamOnce (ups k)) = (relayed, .ended buffer)) {sent : Sent}
    (hsent : sent ∈ (if (cfg.emptyFallbackEnabled && isBlank buffer) = true then
      (⟨relayed, (emptyTurns ups cfg.emptyMaxRetries (k + 1)).1⟩ ::
        (emptyTurns ups cfg.emptyMaxRetries (k + 1)).2 : List Sent)
      else [⟨relayed, []⟩]).dropLast) : toolEvent (String.join sent.relayed) = false := by
  split at hsent
  · rename_i hblank
    rcases mem_dropLast_cons hsent with ⟨rfl, -⟩ | hsent
    · exact toolEvent_of_isBlank hrelay (Bool.and_eq_true_iff.mp hblank).2
    · exact emptyTurns_keep _ _ sent hsent
  · cases hsent

/-- **No request is repeated after a tool event**, where no mark comes after one. -/
theorem attempts_keep (hearly : ∀ k, EarlyMarks (ups k)) (left k : Nat) :
    ∀ sent ∈ (attempts cfg ups left k).dropLast,
      toolEvent (String.join sent.relayed) = false := by
  induction left generalizing k with
  | zero =>
    intro sent hsent
    unfold attempts at hsent
    cases hrelay : relay nameProviderRefusals (some "") (streamOnce (ups k)) with
    | mk relayed scan =>
      rw [hrelay] at hsent
      cases scan with
      | marked chunk => cases hsent
      | ended buffer => exact ended_keep hrelay hsent
  | succ left ih =>
    intro sent hsent
    unfold attempts at hsent
    cases hrelay : relay nameProviderRefusals (some "") (streamOnce (ups k)) with
    | mk relayed scan =>
      rw [hrelay] at hsent
      cases scan with
      | ended buffer => exact ended_keep hrelay hsent
      | marked chunk =>
        dsimp only at hsent
        split at hsent
        · cases hsent
        · rcases mem_dropLast_cons hsent with ⟨rfl, -⟩ | hsent
          · obtain ⟨rfl, hany⟩ := relay_marked hrelay
            exact hearly k hany
          · exact ih (k + 1) sent hsent

/-- A refusal is named where there is an error. -/
theorem truthy_of_code {v : Value} {code : String} (h : providerErrorCodeFromText v = some code) :
    v.truthy = true := by
  cases v with
  | str text =>
    have hne : text ≠ "" := by
      rintro rfl
      exact absurd h (by rw [show providerErrorCodeFromText (.str "") = none by decide]; simp)
    simpa [Value.truthy] using hne
  | _ => cases h

theorem nameLine_quiet {line : List Char} (h : errorLine line = false) : nameLine line = line := by
  unfold nameLine
  split
  · rename_i code hcode
    obtain ⟨data, hdata, hcode⟩ := Option.bind_eq_some_iff.mp hcode
    have herror : anyKey errorKeys data = true :=
      List.any_eq_true.mpr ⟨"error", by decide, truthy_of_code hcode⟩
    simp [errorLine, hdata, herror] at h
  · rfl

theorem nameProviderRefusals_quiet (h : Quiet chunk) : nameProviderRefusals chunk = chunk := by
  unfold nameProviderRefusals
  split
  · have hlines : (chunk.toList.splitOn '\n').map nameLine = chunk.toList.splitOn '\n' :=
      (List.map_congr_left fun line hline => nameLine_quiet (h.2 line hline)).trans (List.map_id _)
    rw [hlines, List.intercalate_splitOn, String.ofList_toList]
  · rfl

/-- An answer without a mark is relayed to its end. -/
theorem relay_unmarked (name : String → String)
    (h : ∀ chunk ∈ chunks, chunkSignalsRateLimit chunk = false) :
    ∃ buffer', relay name buffer chunks = (chunks.map name, .ended buffer') := by
  induction chunks generalizing buffer with
  | nil => exact ⟨buffer, rfl⟩
  | cons chunk rest ih =>
    have hchunk := h chunk (List.mem_cons_self ..)
    obtain ⟨buffer', hrest⟩ : ∃ buffer',
        relay name (push buffer (name chunk)) rest = (rest.map name, .ended buffer') :=
      ih fun c hc => h c (List.mem_cons_of_mem _ hc)
    refine ⟨buffer', ?_⟩
    simp [relay, hchunk, hrest]

/-- **A quiet answer is relayed as it is.** -/
theorem relay_quiet (h : ∀ chunk ∈ chunks, Quiet chunk) :
    ∃ buffer', relay nameProviderRefusals buffer chunks = (chunks, .ended buffer') := by
  obtain ⟨buffer', hrelay⟩ : ∃ buffer', relay nameProviderRefusals buffer chunks =
      (chunks.map nameProviderRefusals, .ended buffer') :=
    relay_unmarked nameProviderRefusals fun chunk hchunk => (h chunk hchunk).1
  have hsame : chunks.map nameProviderRefusals = chunks :=
    (List.map_congr_left fun chunk hchunk => nameProviderRefusals_quiet (h chunk hchunk)).trans
      (List.map_id _)
  exact ⟨buffer', hrelay.trans (by rw [hsame])⟩

/-- The only request, where its answer has no mark and no guard looks at it. -/
theorem attempts_unmarked (n : Nat)
    (h : ∀ chunk ∈ streamOnce (ups 0), chunkSignalsRateLimit chunk = false) :
    streamAdkAgent ⟨false, n⟩ ups = [⟨(streamOnce (ups 0)).map nameProviderRefusals, []⟩] := by
  obtain ⟨buffer, hrelay⟩ : ∃ buffer, relay nameProviderRefusals (some "") (streamOnce (ups 0)) =
      ((streamOnce (ups 0)).map nameProviderRefusals, .ended buffer) :=
    relay_unmarked nameProviderRefusals h
  unfold streamAdkAgent attempts
  rw [hrelay]
  rfl

/-- The first request, where its answer is quiet. -/
theorem attempts_quiet (h : ∀ chunk ∈ streamOnce (ups 0), Quiet chunk) :
    ∃ notices more, streamAdkAgent cfg ups = ⟨streamOnce (ups 0), notices⟩ :: more ∧
      more.length ≤ cfg.emptyMaxRetries ∧
      (¬ Blank cfg (streamOnce (ups 0)) → notices = [] ∧ more = []) := by
  obtain ⟨buffer, hrelay⟩ : ∃ buffer, relay nameProviderRefusals (some "") (streamOnce (ups 0)) =
      (streamOnce (ups 0), .ended buffer) := relay_quiet h
  unfold streamAdkAgent attempts
  rw [hrelay]
  dsimp only
  split
  · rename_i hblank
    refine ⟨_, _, rfl, emptyTurns_length _ _, fun hnot => absurd ?_ hnot⟩
    obtain ⟨hguard, hblank⟩ := Bool.and_eq_true_iff.mp hblank
    obtain ⟨text, rfl, hempty⟩ := isBlank_iff.mp hblank
    obtain ⟨-, -, before, hbefore, htext, hfits⟩ := relay_ended hrelay
    cases hbefore
    rw [String.empty_append] at htext
    subst htext
    exact ⟨hguard, hfits (by decide), hempty⟩
  · exact ⟨[], [], rfl, Nat.zero_le _, fun _ => ⟨rfl, rfl⟩⟩

/-- However the bytes are cut, the text is theirs. -/
theorem streamOnce_decode (bytes : List (List UInt8)) :
    String.join (streamOnce (.events bytes false)) = String.ofList (Utf8.decode bytes.flatten) := by
  have hjoin : ∀ pieces : List (List Char),
      String.join ((pieces.filter (· ≠ [])).map String.ofList) = String.ofList pieces.flatten := by
    intro pieces
    induction pieces with
    | nil => rfl
    | cons piece rest ih =>
      cases piece with
      | nil => simpa using ih
      | cons c piece =>
        rw [List.filter_cons_of_pos (by simp), List.map_cons, String.join_cons, ih,
          List.flatten_cons, String.ofList_append]
  have hcut := Utf8.decodeChunks_flatten bytes
  simp only [streamOnce, Bool.false_eq_true, if_false, List.append_nil]
  rw [hjoin, ← hcut]
  simp

/-- **The retries are faithful.** -/
theorem stream_faithful (cfg : Config) (ups : Nat → Upstream) :
    ((∀ k, EarlyMarks (ups k)) → ∀ sent ∈ (streamAdkAgent cfg ups).dropLast,
      toolEvent (String.join sent.relayed) = false) ∧
    ((∀ chunk ∈ streamOnce (ups 0), Quiet chunk) →
      ∃ notices more, streamAdkAgent cfg ups = ⟨streamOnce (ups 0), notices⟩ :: more ∧
        more.length ≤ cfg.emptyMaxRetries ∧
        (¬ Blank cfg (streamOnce (ups 0)) → notices = [] ∧ more = [])) ∧
    ∀ bytes, ups 0 = .events bytes false →
      String.join (streamOnce (ups 0)) = String.ofList (Utf8.decode bytes.flatten) :=
  ⟨fun hearly => attempts_keep hearly _ _, attempts_quiet,
    fun bytes heq => heq ▸ streamOnce_decode bytes⟩

/-- The bytes of an ASCII text. -/
def ascii (s : String) : List UInt8 := s.toList.map fun c => UInt8.ofNat c.toNat

/-- A rate limit before anything else. -/
def limited : Upstream :=
  .events [ascii "data: \x7b\"error\": \"litellm.RateLimitError, retry in 5.5s\"\x7d\n\n"] false

/-- A tool call, in two chunks. -/
def toolCall : List (List UInt8) :=
  [ascii "data: \x7b\"content\": \x7b\"parts\": [\x7b\"function",
    ascii "Call\": \x7b\"name\": \"insert\"\x7d\x7d]\x7d\x7d\n\n"]

/-- A rate limit, then the call. -/
def recovering : Nat → Upstream
  | 0 => limited
  | _ => .events toolCall false

theorem stream_faithful_recovering :
    (∀ sent ∈ (streamAdkAgent .default recovering).dropLast,
      toolEvent (String.join sent.relayed) = false) ∧
    (streamAdkAgent .default recovering).map (·.notices) = [[.rateLimitRetry ⟨55, 1⟩ 1], []] ∧
    ∃ notices more, streamAdkAgent .default (fun _ => .events toolCall false) =
      ⟨streamOnce (.events toolCall false), notices⟩ :: more ∧ notices = [] ∧ more = [] := by
  have hearly : ∀ k, EarlyMarks (recovering k) := by
    intro k
    cases k with
    | zero => decide +kernel
    | succ k => exact (by decide +kernel : EarlyMarks (.events toolCall false))
  have hquiet : ∀ chunk ∈ streamOnce (.events toolCall false), Quiet chunk := by decide +kernel
  obtain ⟨notices, more, hsent, -, hrest⟩ :=
    (stream_faithful .default fun _ => .events toolCall false).2.1 hquiet
  refine ⟨(stream_faithful .default recovering).1 hearly, by decide +kernel, notices, more, hsent,
    hrest ?_⟩
  rintro ⟨-, -, hempty⟩
  exact absurd hempty (by decide +kernel)

/-- A blank answer. -/
def blank : Upstream := .events [ascii "data: \x7b\x7d\n\n"] false

/-- A tool call, then a rate limit. -/
def interrupted : Upstream :=
  .events (toolCall ++
    [ascii "data: \x7b\"error\": \"litellm.RateLimitError, retry in 5.5s\"\x7d\n\n"]) false

/-- An answer about rate limits. -/
def explained : Upstream :=
  .events [ascii "data: \x7b\"text\": \"A RateLimitError means: wait.\"\x7d\n\n"] false

/-- A comment that quotes an error, cut before what it quotes. -/
def quoted : Upstream :=
  .events [ascii ": was ", ascii "data: \x7b\"error\": \"litellm.NotFoundError\"\x7d\n\n"] false

/-- The event that `quoted` quotes. -/
def refusedLine : String := "data: \x7b\"error\": \"litellm.NotFoundError\"\x7d"

/-- What is relayed of it says something else. -/
theorem named_refusedLine : nameProviderRefusals (refusedLine ++ "\n\n") ≠ refusedLine ++ "\n\n" := by
  have hcode : (lineData refusedLine.toList).bind (fun data =>
      providerErrorCodeFromText (Dict.get data "error")) = some "model_not_found" := by
    decide +kernel
  have hlines : (refusedLine ++ "\n\n").toList.splitOn '\n' = [refusedLine.toList, [], []] := by
    decide +kernel
  have hempty : nameLine [] = [] := by decide +kernel
  have hnamed : nameLine refusedLine.toList = "data: ".toList ++
      (Json.written Json.jsonShown (.dict [("error", .str (chatMessage "model_not_found")),
        ("code", .str "model_not_found")])).flatMap fun c =>
          if c.toNat < 127 then [c] else asciiEscape c.toNat := by
    unfold nameLine
    rw [hcode]
    dsimp only
    rw [String.toList_append, dumps, Json.json_eq]
    exact congrArg ("data: ".toList ++ ·) String.toList_ofList
  intro h
  unfold nameProviderRefusals at h
  rw [if_pos (by decide +kernel), hlines] at h
  have hlists := congrArg String.toList h
  rw [String.toList_ofList, List.map_cons, List.map_cons, List.map_cons, hempty, hnamed] at hlists
  have hbegin := congrArg (List.take 18) hlists
  revert hbegin
  decide +kernel

/-- The lines of an answer hold no error event. -/
def NoError (up : Upstream) : Prop :=
  ∀ line ∈ Lines.cut Lines.eventEnd (String.join (streamOnce up)).toList, errorLine line = false

instance (up : Upstream) : Decidable (NoError up) := inferInstanceAs (Decidable (∀ line ∈ _, _))

/-- **The request can be sent again after a tool call, and an answer without an error again or
altered.** -/
theorem stream_repeats_and_alters :
    (¬ ∀ cfg ups, ∀ sent ∈ (streamAdkAgent cfg ups).dropLast,
      toolEvent (String.join sent.relayed) = false) ∧
    (¬ ∀ cfg ups, NoError (ups 0) → streamAdkAgent cfg ups = [⟨streamOnce (ups 0), []⟩]) ∧
    (¬ ∀ cfg ups, NoError (ups 0) → ¬ Blank cfg (streamOnce (ups 0)) →
      (streamAdkAgent cfg ups).length = 1) ∧
    ¬ ∀ cfg ups, NoError (ups 0) → ¬ Blank cfg (streamOnce (ups 0)) →
      (streamOnce (ups 0)).any chunkSignalsRateLimit = false →
        streamAdkAgent cfg ups = [⟨streamOnce (ups 0), []⟩] := by
  refine ⟨?_, ?_, ?_, ?_⟩
  · intro hall
    have hrepeated := hall .default (fun _ => interrupted)
    exact absurd hrepeated (by decide +kernel)
  · intro hall
    have hsent := hall .default (fun _ => blank) (by decide +kernel)
    exact absurd (congrArg List.length hsent) (by decide +kernel)
  · intro hall
    have hsent := hall ⟨false, 0⟩ (fun _ => explained) (by decide +kernel) fun hblank =>
      absurd hblank.1 (by decide)
    exact absurd hsent (by decide +kernel)
  · intro hall
    have hmarks : (streamOnce quoted).any chunkSignalsRateLimit = false := by decide +kernel
    have hsent := hall ⟨false, 0⟩ (fun _ => quoted) (by decide +kernel)
      (fun hblank => absurd hblank.1 (by decide)) hmarks
    have hunmarked : ∀ chunk ∈ streamOnce quoted, chunkSignalsRateLimit chunk = false := by
      simpa using hmarks
    rw [attempts_unmarked 0 hunmarked] at hsent
    have hmap : (streamOnce quoted).map nameProviderRefusals = (streamOnce quoted).map id :=
      (congrArg Sent.relayed (List.cons_eq_cons.mp hsent).1).trans (List.map_id _).symm
    exact named_refusedLine (List.map_inj_left.mp hmap _ (by decide +kernel))

end Apowerb.Agent.Stream
