/-
# Splitting a mail into its documents

A mail with several PDFs becomes one row of the webhook log for each of them
(`_split_into_children`, `routers/webhook_handlers/outlook.py`); the row of the mail is then at its
end.  A child is known by the position of its PDF in the list of the pass, each is created and
committed on its own, and a PDF whose copy fails is skipped.  The row of the mail is marked after the
loop, whatever was skipped, and a child that is there is never looked at again.

* `split_complete`: as long as every pass lists the same PDFs in the same order, and a pass that
  skipped a PDF does not come to its mark without the child, every PDF of a mail at its end is held by
  exactly one child.

What the extension hooks do (`fanout.should_split`, `fanout.pdf_attachments`,
`fanout.build_child_row_kwargs`) is a parameter: which lists are split, which of their attachments are
PDFs, and the resource that is the key of a child in the table (`Keyed`).

The insertion of a child, the copy of its PDF and its commit are one operation: another worker that
inserts the same child waits at the unique index for the end of the transaction.

GHOST STATE: for each pass, the positions it skipped because the copy failed.
-/
import Mathlib
import Apowerb.Webhook.Backlog

namespace Apowerb.Webhook.Fanout

open Runs

/-! ## 1. The machine -/

/-- The extension hooks, over the metadata of an attachment. -/
structure Hooks (α : Type) where
  shouldSplit : List α → Bool
  pdfAttachments : List α → List α
  /-- `build_child_row_kwargs(…)["resource_id"]`, from the resource of the parent, the PDF, its
  position and the number of PDFs. -/
  childResource : String → α → Nat → Nat → String

/-- The hooks know a child by its position alone, and split what has at least two PDFs. -/
structure Keyed {α : Type} (H : Hooks α) : Prop where
  key : ∀ r pdf pdf' i j n n', H.childResource r pdf i n = H.childResource r pdf' j n' ↔ i = j
  split : ∀ stored, H.shouldSplit stored = true ↔ 2 ≤ (H.pdfAttachments stored).length

variable {α : Type}

/-- A child row: its key, and the PDF that was stored for it. -/
structure Child (α : Type) where
  resourceId : String
  pdf : α
deriving DecidableEq, Repr

/-- Where a pass stands in its loop. -/
inductive Phase
  /-- Before the search for the child of the next PDF. -/
  | looking
  /-- It found no child. -/
  | creating
  /-- The row of the mail is marked. -/
  | over
deriving DecidableEq, Repr

/-- A processing of the row of the mail that splits it. -/
structure Pass (α : Type) where
  pdfs : List α
  /-- The number of PDFs that are done with. -/
  idx : Nat
  created : List Nat
  missed : List Nat
  phase : Phase
deriving DecidableEq, Repr

/-- The row of the mail. -/
structure Parent where
  resourceId : String
  status : Backlog.Status
  agentResponse : Option String
deriving DecidableEq, Repr

structure State (α : Type) where
  parent : Parent
  children : List (Child α)
  passes : List (Pass α)
deriving DecidableEq, Repr

inductive Op (α : Type)
  /-- A processing finds these attachments, at the first pass or at a later one. -/
  | split (stored : List α)
  /-- The pass `i` looks for the child of its next PDF. -/
  | look (i : Nat)
  /-- It inserts the child and copies the PDF, which may fail. -/
  | create (i : Nat) (copied : Bool)
  /-- It marks the row of the mail. -/
  | finish (i : Nat)
  /-- It raises, or its process is killed. -/
  | abandon (i : Nat)
  /-- The row of the mail is processed again. -/
  | requeue
deriving DecidableEq, Repr

def State.setPass (s : State α) (i : Nat) (p : Pass α) : State α :=
  { s with passes := s.passes.set i p }

/-- There is a child with this key. -/
def State.hasChild (s : State α) (resourceId : String) : Bool :=
  s.children.any (·.resourceId = resourceId)

/-- The pass is done with a PDF. -/
def Pass.next (p : Pass α) : Pass α := { p with idx := p.idx + 1, phase := .looking }

/-- The text of the split message. -/
def splitMessage (n : Nat) (created : List Nat) : String :=
  "[SPLIT] split into " ++ toString n ++ " children: " ++ toString created

/-- The search for an existing child. -/
def stepLook (H : Hooks α) (s : State α) (i : Nat) (p : Pass α) : Option (State α) :=
  match p.phase, p.pdfs[p.idx]? with
  | .looking, some pdf =>
    if s.hasChild (H.childResource s.parent.resourceId pdf p.idx p.pdfs.length) then
      some (s.setPass i p.next)
    else some (s.setPass i { p with phase := .creating })
  | _, _ => none

/-- The insertion: the unique index refuses a child that another worker created meanwhile, and a
failed copy takes the insertion back. -/
def stepCreate (H : Hooks α) (s : State α) (i : Nat) (p : Pass α) (copied : Bool) :
    Option (State α) :=
  match p.phase, p.pdfs[p.idx]? with
  | .creating, some pdf =>
    let resourceId := H.childResource s.parent.resourceId pdf p.idx p.pdfs.length
    if s.hasChild resourceId then some (s.setPass i p.next)
    else if copied then
      let created : State α := { s with children := s.children ++ [⟨resourceId, pdf⟩] }
      some (created.setPass i { p.next with created := p.created ++ [s.children.length] })
    else some (s.setPass i { p.next with missed := p.missed ++ [p.idx] })
  | _, _ => none

/-- The mark after the loop. -/
def stepFinish (s : State α) (i : Nat) (p : Pass α) : Option (State α) :=
  if p.phase = .looking ∧ p.idx = p.pdfs.length then
    let parent : Parent := { s.parent with
      status := .success, agentResponse := some (splitMessage p.pdfs.length p.created) }
    some ({ s with parent := parent }.setPass i { p with phase := .over })
  else none

/-- One statement; `none` where the pass is not at that point. -/
def step (H : Hooks α) (s : State α) : Op α → Option (State α)
  | .split stored =>
    if H.shouldSplit stored then
      some { s with passes := s.passes ++ [⟨H.pdfAttachments stored, 0, [], [], .looking⟩] }
    else none
  | .look i => (s.passes[i]?).bind (stepLook H s i)
  | .create i copied => (s.passes[i]?).bind (stepCreate H s i · copied)
  | .finish i => (s.passes[i]?).bind (stepFinish s i)
  | .abandon i => (s.passes[i]?).map fun p => s.setPass i { p with phase := .over }
  | .requeue => some { s with parent := { s.parent with status := .pending } }

/-- The row of a mail before its first processing. -/
def start (resourceId : String) : State α := ⟨⟨resourceId, .pending, none⟩, [], []⟩

/-! ## 2. What is to hold, and when -/

variable {H : Hooks α} {pdfs : List α} {r : String} {s s' : State α} {op : Op α} {p : Pass α}
  {i : Nat}

/-- Where the row of the mail is at its end, one child holds each PDF. -/
def Complete [DecidableEq α] (pdfs : List α) (s : State α) : Prop :=
  s.parent.status = .success → ∀ pdf ∈ pdfs, s.children.countP (·.pdf = pdf) = 1

/-- There is a child for the position `j` of the list. -/
def State.holds (H : Hooks α) (pdfs : List α) (s : State α) (j : Nat) : Bool :=
  (pdfs[j]?).any fun pdf => s.hasChild (H.childResource s.parent.resourceId pdf j pdfs.length)

/-- The steps of a calm run: the passes list the same PDFs in the same order, and a pass comes to its
mark only where each position that it skipped has a child by then. -/
def Calm (H : Hooks α) (pdfs : List α) (s : State α) : Op α → Prop
  | .split stored => H.pdfAttachments stored = pdfs
  | .finish i => ∀ p ∈ s.passes[i]?, ∀ j ∈ p.missed, s.holds H pdfs j = true
  | _ => True

instance [DecidableEq α] (H : Hooks α) (pdfs : List α) (s : State α) :
    (op : Op α) → Decidable (Calm H pdfs s op)
  | .split _ => inferInstanceAs (Decidable (_ = _))
  | .finish i => inferInstanceAs (Decidable (∀ p ∈ s.passes[i]?, ∀ j ∈ p.missed, _))
  | .look _ | .create .. | .abandon _ | .requeue => inferInstanceAs (Decidable True)

/-! ## 3. The invariant -/

/-- Each child holds the PDF at its position, each position that a pass is done with has its child or
was skipped, and all have theirs where the row of the mail is at its end. -/
structure Inv (H : Hooks α) (pdfs : List α) (s : State α) : Prop where
  children : ∀ c ∈ s.children, ∃ j, pdfs[j]? = some c.pdf ∧
    c.resourceId = H.childResource s.parent.resourceId c.pdf j pdfs.length
  keys : (s.children.map (·.resourceId)).Nodup
  passes : ∀ p ∈ s.passes, p.phase ≠ .over →
    p.pdfs = pdfs ∧ ∀ j < p.idx, j ∈ p.missed ∨ s.holds H pdfs j = true
  success : s.parent.status = .success → ∀ j < pdfs.length, s.holds H pdfs j = true

theorem holds_iff {j : Nat} :
    s.holds H pdfs j = true ↔ ∃ pdf, pdfs[j]? = some pdf ∧ ∃ c ∈ s.children,
      c.resourceId = H.childResource s.parent.resourceId pdf j pdfs.length := by
  simp [State.holds, State.hasChild, Option.any_eq_true]

/-- One more child holds no less. -/
theorem holds_insert (child : Child α) {j : Nat} (h : s.holds H pdfs j = true) :
    State.holds H pdfs { s with children := s.children ++ [child] } j = true := by
  obtain ⟨pdf, hpdf, c, hc, hkey⟩ := holds_iff.mp h
  exact holds_iff.mpr ⟨pdf, hpdf, c, List.mem_append_left _ hc, hkey⟩

/-- **Every PDF is held by one child, where the row of the mail is at its end.** -/
theorem Inv.complete [DecidableEq α] (h : Inv H pdfs s) (hkeyed : Keyed H) (hnodup : pdfs.Nodup) :
    Complete pdfs s := by
  intro hsuccess pdf hpdf
  obtain ⟨j, hj⟩ := List.mem_iff_getElem?.mp hpdf
  have hlt : j < pdfs.length := (List.getElem?_eq_some_iff.mp hj).1
  -- A child holds this PDF when its key is that of the position.
  have hposition : ∀ c ∈ s.children, c.pdf = pdf →
      c.resourceId = H.childResource s.parent.resourceId pdf j pdfs.length := by
    intro c hc heq
    obtain ⟨j', hj', hkey⟩ := h.children c hc
    have hlt' : j' < pdfs.length := (List.getElem?_eq_some_iff.mp hj').1
    have hsame : j' = j := (List.getElem?_inj hlt' hnodup).mp (by rw [hj', hj, heq])
    rw [hkey, heq, hsame]
  have hle : s.children.countP (·.pdf = pdf) ≤ 1 := by
    rw [List.countP_eq_length_filter]
    have hsub : ((s.children.filter (·.pdf = pdf)).map (·.resourceId)).Nodup :=
      h.keys.sublist (List.filter_sublist.map _)
    have hsame : (s.children.filter (·.pdf = pdf)).map (·.resourceId) ⊆
        [H.childResource s.parent.resourceId pdf j pdfs.length] := by
      intro x hx
      obtain ⟨c, hc, rfl⟩ := List.mem_map.mp hx
      obtain ⟨hmem, heq⟩ := List.mem_filter.mp hc
      exact List.mem_singleton.mpr (hposition c hmem (by simpa using heq))
    simpa using (List.subperm_of_subset hsub hsame).length_le
  have hpos : 0 < s.children.countP (·.pdf = pdf) := by
    obtain ⟨pdf', hpdf', c, hc, hkey⟩ := holds_iff.mp (h.success hsuccess j hlt)
    rw [hj] at hpdf'
    cases hpdf'
    obtain ⟨j', hj', hkey'⟩ := h.children c hc
    obtain rfl := (hkeyed.key _ _ _ _ _ _ _).mp (hkey'.symm.trans hkey)
    rw [hj] at hj'
    exact List.countP_pos_iff.mpr ⟨c, hc, by simpa using (Option.some.inj hj').symm⟩
  omega

/-- The row of the mail and the children stay, and a pass moves to another point at which it knows
what it has to. -/
theorem Inv.setPass (h : Inv H pdfs s) {new : Pass α}
    (hnew : new.phase ≠ .over →
      new.pdfs = pdfs ∧ ∀ j < new.idx, j ∈ new.missed ∨ s.holds H pdfs j = true) :
    Inv H pdfs (s.setPass i new) := by
  refine ⟨h.children, h.keys, ?_, h.success⟩
  intro p hp hopen
  rcases List.mem_or_eq_of_mem_set hp with hold | rfl
  · exact h.passes p hold hopen
  · exact hnew hopen

theorem Inv.look (h : Inv H pdfs s) (hi : s.passes[i]? = some p)
    (hs : stepLook H s i p = some s') : Inv H pdfs s' := by
  unfold stepLook at hs
  split at hs
  · rename_i pdf hphase hpdf
    obtain ⟨hlist, hdone⟩ := h.passes p (List.mem_of_getElem? hi) (by rw [hphase]; decide)
    split at hs
    · rename_i hchild
      cases hs
      refine h.setPass fun _ => ⟨hlist, fun j hj => ?_⟩
      rcases Nat.lt_succ_iff_lt_or_eq.mp hj with hlt | rfl
      · exact hdone j hlt
      · refine .inr ?_
        rw [hlist] at hpdf hchild
        simpa [State.holds, hpdf] using hchild
    · cases hs
      exact h.setPass fun _ => ⟨hlist, hdone⟩
  · cases hs

/-- A child is inserted under a new key, for the PDF at its position. -/
theorem Inv.insert (h : Inv H pdfs s) {pdf : α} {j : Nat} (hpdf : pdfs[j]? = some pdf)
    (hnone : ¬ s.hasChild (H.childResource s.parent.resourceId pdf j pdfs.length) = true) :
    Inv H pdfs { s with
      children := s.children ++ [⟨H.childResource s.parent.resourceId pdf j pdfs.length, pdf⟩] } := by
  refine ⟨?_, ?_, ?_, ?_⟩
  · intro c hc
    rcases List.mem_append.mp hc with hold | hnew
    · exact h.children c hold
    · rw [List.mem_singleton.mp hnew]
      exact ⟨j, hpdf, rfl⟩
  · rw [List.map_append]
    refine List.nodup_append.mpr ⟨h.keys, List.nodup_singleton _, ?_⟩
    rintro x hx y hy rfl
    obtain ⟨c, hc, rfl⟩ := List.mem_map.mp hx
    refine hnone (List.any_eq_true.mpr ⟨c, hc, ?_⟩)
    simpa using List.mem_singleton.mp hy
  · intro p hp hopen
    obtain ⟨hlist, hdone⟩ := h.passes p hp hopen
    exact ⟨hlist, fun x hx => (hdone x hx).imp id (holds_insert _)⟩
  · intro hsuccess x hx
    exact holds_insert _ (h.success hsuccess x hx)

theorem Inv.create (h : Inv H pdfs s) (hi : s.passes[i]? = some p)
    {copied : Bool} (hs : stepCreate H s i p copied = some s') : Inv H pdfs s' := by
  unfold stepCreate at hs
  split at hs
  · rename_i pdf hphase hpdf
    obtain ⟨hlist, hdone⟩ := h.passes p (List.mem_of_getElem? hi) (by rw [hphase]; decide)
    dsimp only at hs
    rw [hlist] at hpdf hs
    split at hs
    · rename_i hchild
      cases hs
      refine h.setPass fun _ => ⟨hlist, fun j hj => ?_⟩
      rcases Nat.lt_succ_iff_lt_or_eq.mp hj with hlt | rfl
      · exact hdone j hlt
      · exact .inr (by simpa [State.holds, hpdf] using hchild)
    · rename_i hnone
      split at hs
      · cases hs
        have hinserted := h.insert hpdf hnone
        refine hinserted.setPass fun _ => ⟨hlist, fun j hj => ?_⟩
        rcases Nat.lt_succ_iff_lt_or_eq.mp hj with hlt | rfl
        · rcases hdone j hlt with hmissed | hheld
          · exact .inl hmissed
          · exact .inr (holds_insert _ hheld)
        · exact .inr (holds_iff.mpr ⟨pdf, hpdf, _,
            List.mem_append_right _ (List.mem_singleton_self _), rfl⟩)
      · cases hs
        refine h.setPass fun _ => ⟨hlist, fun j hj => ?_⟩
        rcases Nat.lt_succ_iff_lt_or_eq.mp hj with hlt | rfl
        · rcases hdone j hlt with hmissed | hheld
          · exact .inl (List.mem_append_left _ hmissed)
          · exact .inr hheld
        · exact .inl (List.mem_append_right _ (List.mem_singleton_self _))
  · cases hs

theorem Inv.finish (h : Inv H pdfs s) (hi : s.passes[i]? = some p)
    (hcalm : ∀ j ∈ p.missed, s.holds H pdfs j = true) (hs : stepFinish s i p = some s') :
    Inv H pdfs s' := by
  unfold stepFinish at hs
  split at hs
  · rename_i hend
    cases hs
    obtain ⟨hphase, hidx⟩ := hend
    obtain ⟨hlist, hdone⟩ := h.passes p (List.mem_of_getElem? hi) (by rw [hphase]; decide)
    refine ⟨h.children, h.keys, ?_, ?_⟩
    · intro q hq hopen
      rcases List.mem_or_eq_of_mem_set hq with hold | rfl
      · exact h.passes q hold hopen
      · exact absurd rfl hopen
    · intro _ j hj
      rcases hdone j (by rw [hidx, hlist]; exact hj) with hmissed | hheld
      · exact hcalm j hmissed
      · exact hheld
  · cases hs

/-- **One calm step keeps the invariant.** -/
theorem Inv.step (h : Inv H pdfs s) (hok : Calm H pdfs s op) (hs : Fanout.step H s op = some s') :
    Inv H pdfs s' := by
  cases op with
  | split stored =>
    simp only [Fanout.step] at hs
    split at hs
    · cases hs
      refine ⟨h.children, h.keys, ?_, h.success⟩
      intro q hq hopen
      rcases List.mem_append.mp hq with hold | hnew
      · exact h.passes q hold hopen
      · rw [List.mem_singleton.mp hnew]
        exact ⟨hok, fun j hj => absurd hj (Nat.not_lt_zero j)⟩
    · cases hs
  | look i =>
    obtain ⟨p, hi, hs⟩ := Option.bind_eq_some_iff.mp hs
    exact h.look hi hs
  | create i copied =>
    obtain ⟨p, hi, hs⟩ := Option.bind_eq_some_iff.mp hs
    exact h.create hi hs
  | finish i =>
    obtain ⟨p, hi, hs⟩ := Option.bind_eq_some_iff.mp hs
    exact h.finish hi (hok p hi) hs
  | abandon i =>
    obtain ⟨p, hi, rfl⟩ := Option.map_eq_some_iff.mp hs
    exact h.setPass fun hopen => absurd rfl hopen
  | requeue =>
    cases hs
    exact ⟨h.children, h.keys, h.passes, fun hsuccess => by cases hsuccess⟩

theorem start_inv (H : Hooks α) (pdfs : List α) (r : String) : Inv H pdfs (start r) where
  children c hc := by cases hc
  keys := List.nodup_nil
  passes p hp := by cases hp
  success hsuccess := by cases hsuccess

/-! ## 4. Splitting loses no document -/

/-- **Splitting a mail loses no document** in a calm run. -/
theorem split_complete [DecidableEq α] (hkeyed : Keyed H) (hnodup : pdfs.Nodup)
    (hrun : Reach (step H) (Calm H pdfs) (start r) s) : Complete pdfs s := by
  have hinv : Inv H pdfs s :=
    hrun.invariant (start_inv H pdfs r) fun _ _ _ h hok hs => h.step hok hs
  exact hinv.complete hkeyed hnodup

/-- The metadata of an attachment. -/
structure Stored where
  filename : String
  contentType : String
deriving DecidableEq, Repr

/-- Hooks that split what has two PDFs, and number the children. -/
def numbered : Hooks Stored where
  shouldSplit stored := 2 ≤ (stored.filter (·.contentType = "application/pdf")).length
  pdfAttachments stored := stored.filter (·.contentType = "application/pdf")
  childResource r _ i _ := r ++ "__pdf" ++ Nat.repr i

theorem numbered_keyed : Keyed numbered where
  key r pdf pdf' i j n n' := by simp [numbered, Nat.repr_inj]
  split stored := by simp [numbered]

/-- Two invoices. -/
def first : Stored := ⟨"first.pdf", "application/pdf"⟩
def second : Stored := ⟨"second.pdf", "application/pdf"⟩

/-- The copy of the second invoice fails and the pass is killed; the next pass, which lists a
picture too, finds one child and creates the other. -/
def recovered : List (Op Stored) :=
  [.split [first, second], .look 0, .create 0 true, .look 0, .create 0 false, .abandon 0, .requeue,
    .split [⟨"logo.png", "image/png"⟩, first, second], .look 1, .look 1, .create 1 true, .finish 1]

theorem split_complete_recovered :
    ∃ s, Reach (step numbered) (Calm numbered [first, second]) (start "mail") s ∧
      s.parent.status = .success ∧ s.children.map (·.pdf) = [first, second] ∧
        Complete [first, second] s := by
  have hplay : (replay (step numbered) (Calm numbered [first, second]) (start "mail")
      recovered).map (fun s => (s.parent.status, s.children.map (·.pdf))) =
        some (.success, [first, second]) := by decide
  obtain ⟨s, hs, hout⟩ := Option.map_eq_some_iff.mp hplay
  have hrun := Reach.of_replay recovered hs
  exact ⟨s, hrun, congrArg Prod.fst hout, congrArg Prod.snd hout,
    split_complete numbered_keyed (by decide) hrun⟩

/-- The passes list the PDFs of the mail, in any order. -/
def Lists (H : Hooks α) (pdfs : List α) (_ : State α) : Op α → Prop
  | .split stored => (H.pdfAttachments stored).Perm pdfs
  | _ => True

instance [DecidableEq α] (H : Hooks α) (pdfs : List α) (s : State α) :
    (op : Op α) → Decidable (Lists H pdfs s op)
  | .split _ => inferInstanceAs (Decidable (List.Perm _ _))
  | .finish _ | .look _ | .create .. | .abandon _ | .requeue => inferInstanceAs (Decidable True)

/-- One pass, in which the copy of the second invoice fails. -/
def skipped : List (Op Stored) :=
  [.split [first, second], .look 0, .create 0 true, .look 0, .create 0 false, .finish 0]

/-- A pass that is killed after its first child, and one that lists the invoices the other way. -/
def reordered : List (Op Stored) :=
  [.split [first, second], .look 0, .create 0 true, .abandon 0, .requeue,
    .split [second, first], .look 1, .look 1, .create 1 true, .finish 1]

/-- **A split can lose a document**: by a copy that fails, and by another order. -/
theorem split_loses :
    (¬ ∀ s, Reach (step numbered) (Lists numbered [first, second]) (start "mail") s →
      s.parent.status = .success → ∀ pdf ∈ [first, second], ∃ c ∈ s.children, c.pdf = pdf) ∧
    (¬ ∀ s, Reach (step numbered) (Lists numbered [first, second]) (start "mail") s →
      s.parent.status = .success → (s.children.map (·.pdf)).Nodup) ∧
    ¬ ∀ (H : Hooks Stored) (pdfs : List Stored) (r : String) (s : State Stored), Keyed H →
      2 ≤ pdfs.length → Reach (step H) (Lists H pdfs) (start r) s → Complete pdfs s := by
  have hskipped : (replay (step numbered) (Lists numbered [first, second]) (start "mail")
      skipped).map (fun s => (s.parent.status, s.children.map (·.pdf))) =
        some (.success, [first]) := by decide
  obtain ⟨s, hs, hout⟩ := Option.map_eq_some_iff.mp hskipped
  have hrun := Reach.of_replay skipped hs
  have hstatus : s.parent.status = .success := congrArg Prod.fst hout
  have hchildren : s.children.map (·.pdf) = [first] := congrArg Prod.snd hout
  have hlost : ¬ ∃ c ∈ s.children, c.pdf = second := by
    intro hchild
    have hmem : second ∈ s.children.map (·.pdf) := List.mem_map.mpr hchild
    rw [hchildren] at hmem
    exact absurd hmem (by decide)
  refine ⟨?_, ?_, ?_⟩
  · intro hall
    exact hlost (hall s hrun hstatus second (by decide))
  · intro hall
    have hplay : (replay (step numbered) (Lists numbered [first, second]) (start "mail")
        reordered).map (fun s => (s.parent.status, s.children.map (·.pdf))) =
          some (.success, [first, first]) := by decide
    obtain ⟨s', hs', hout'⟩ := Option.map_eq_some_iff.mp hplay
    have hnodup := hall s' (Reach.of_replay reordered hs') (congrArg Prod.fst hout')
    rw [show s'.children.map (·.pdf) = [first, first] from congrArg Prod.snd hout'] at hnodup
    exact absurd hnodup (by decide)
  · intro hall
    have hcount := hall numbered [first, second] "mail" s numbered_keyed (by decide) hrun hstatus
      second (by decide)
    obtain ⟨c, hc, heq⟩ := List.countP_pos_iff.mp (Nat.lt_of_lt_of_eq Nat.one_pos hcount.symm)
    exact hlost ⟨c, hc, by simpa using heq⟩

end Apowerb.Webhook.Fanout
