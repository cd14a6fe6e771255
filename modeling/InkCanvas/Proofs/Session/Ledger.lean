import InkCanvas.Proofs.Curve
import InkCanvas.Proofs.Session.Commit

/-! # Where the ink comes from

The ledger of a run lists what became of the strokes: each that was opened, each sample that one
accepted, each commit and each that was dropped, as the calls report it. It balances
(`Session.Booked`): what was opened is committed, dropped or still being drawn, and every stroke on
the canvas or in its history is made from the samples that the ledger has between its opening and its
commit (`Session.run_booked`). -/

namespace InkCanvas

/-- What became of a stroke. -/
inductive LedgerEntry (α : Type) where
  | opened (settings : Settings α) (first : Sample α)
  /-- The stroke accepted a sample. -/
  | extended (next : Sample α)
  | committed (id : Nat)
  | dropped

namespace LedgerEntry

variable {α : Type}

def isOpening : LedgerEntry α → Bool
  | .opened .. => true
  | _ => false

def isCommit : LedgerEntry α → Bool
  | .committed _ => true
  | _ => false

def isDrop : LedgerEntry α → Bool
  | .dropped => true
  | _ => false

/-- The number of the stroke, if one was committed. -/
def id? : LedgerEntry α → Option Nat
  | .committed id => some id
  | _ => none

end LedgerEntry

/-- The entries of a stroke that is not yet committed or dropped. -/
def Draft.entries {α : Type} (d : Draft α) : List (LedgerEntry α) :=
  .opened d.settings d.first :: d.later.map .extended

theorem Draft.entries_extended {α : Type} (d : Draft α) (next : Sample α) :
    (d.extended next).entries = d.entries ++ [.extended next] := by
  simp [entries, extended]

namespace Session

variable {α : Type} [Scalar α]

/-! ## The ledger of a run -/

def finishEntries (s : Session α) : List (LedgerEntry α) := s.finishStroke.2.toList.map .committed

def extendEntries (s : Session α) (next : Sample α) : List (LedgerEntry α) :=
  if (s.extendStroke next).2 then [.extended next] else []

omit [Scalar α] in
def cancelEntries (s : Session α) : List (LedgerEntry α) :=
  if s.cancelStroke.2 then [.dropped] else []

def beginEntries (s : Session α) (first : Sample α) : List (LedgerEntry α) :=
  s.finishEntries ++ if (s.beginStroke first).2 then [.opened s.settings first] else []

/-- The entries of what a command does. -/
def obeyEntries (s : Session α) : Command α → List (LedgerEntry α)
  | .begin first => s.beginEntries first
  | .extend next => s.extendEntries next
  | .finish none => s.finishEntries
  | .finish (some last) => s.extendEntries last ++ (s.extendStroke last).1.finishEntries
  | .cancel => s.cancelEntries
  | .restart first => s.cancelEntries ++ s.cancelStroke.1.beginEntries first
  | .erase _ | .view _ => []

def obeyEntries? (s : Session α) : Option (Command α) → List (LedgerEntry α)
  | some command => s.obeyEntries command
  | none => []

/-- The entries of what a call does. -/
def performEntries (s : Session α) : Action α → List (LedgerEntry α)
  | .beginStroke first => s.beginEntries first
  | .extendStroke next => s.extendEntries next
  | .finishStroke => s.finishEntries
  | .cancelStroke => s.cancelEntries
  | .handle e =>
    let (arbiter, command) := s.arbiter.handle e s.view s.settings.tool
    obeyEntries? { s with arbiter } command
  | .interrupt =>
    let (arbiter, command) := s.arbiter.interrupt
    obeyEntries? { s with arbiter } command ++ (obey? { s with arbiter } command).1.finishEntries
  | _ => []

/-- The entries of a run, first to last. -/
def ledger (s : Session α) : List (Action α) → List (LedgerEntry α)
  | [] => []
  | a :: actions => s.performEntries a ++ (s.perform a).1.ledger actions

/-! ## The balance -/

/-- The stroke is made from a draft whose entries end the ledger, and keeps what counts of it. -/
def OpenIn (log : List (LedgerEntry α)) (stroke : Stroke α) : Prop :=
  ∃ (before : List (LedgerEntry α)) (d : Draft α),
    log = before ++ d.entries ∧ d.stroke = .ok stroke ∧ d.Inks stroke

/-- The stroke is made from a draft whose entries stand in the ledger right before its commit, and
keeps what counts of it. -/
def CommittedIn (log : List (LedgerEntry α)) (ink : Inked α) : Prop :=
  ∃ (before : List (LedgerEntry α)) (d : Draft α) (after : List (LedgerEntry α)),
    log = before ++ d.entries ++ .committed ink.id :: after ∧
      d.stroke = .ok ink.stroke ∧ d.Inks ink.stroke

/-- The ledger accounts for a session. -/
structure Booked (log : List (LedgerEntry α)) (s : Session α) : Prop where
  numbers : log.filterMap LedgerEntry.id? = List.range' 1 s.committed
  balance : log.countP LedgerEntry.isOpening =
    log.countP LedgerEntry.isCommit + log.countP LedgerEntry.isDrop + s.live.isSome.toNat
  live : ∀ l, s.live = some l → OpenIn log l.stroke
  kept : ∀ ink ∈ s.kept, CommittedIn log ink

variable {s t : Session α} {log : List (LedgerEntry α)}

theorem CommittedIn.append {ink : Inked α} (h : CommittedIn log ink) (more : List (LedgerEntry α)) :
    CommittedIn (log ++ more) ink := by
  obtain ⟨before, d, after, rfl, hmade⟩ := h
  exact ⟨before, d, after ++ more, by simp, hmade⟩

theorem OpenIn.committed {stroke : Stroke α} (h : OpenIn log stroke) (id : Nat) :
    CommittedIn (log ++ [.committed id]) ⟨id, stroke⟩ := by
  obtain ⟨before, d, rfl, hmade⟩ := h
  exact ⟨before, d, [], rfl, hmade⟩

theorem OpenIn.of_draft {d : Draft α} {stroke : Stroke α} (h : d.stroke = .ok stroke)
    (before : List (LedgerEntry α)) : OpenIn (before ++ d.entries) stroke :=
  ⟨before, d, rfl, h, Draft.inks_of_stroke h⟩

theorem OpenIn.extended {stroke stroke' : Stroke α} {next : Sample α} (h : OpenIn log stroke)
    (hext : stroke.extend next = .ok stroke') : OpenIn (log ++ [.extended next]) stroke' := by
  obtain ⟨before, d, rfl, hstroke, -⟩ := h
  have hnext : (d.extended next).stroke = .ok stroke' := by
    rw [d.stroke_extended, hstroke]
    exact hext
  rw [List.append_assoc, ← d.entries_extended]
  exact .of_draft hnext before

theorem OpenIn.opened {settings : Settings α} {first : Sample α} {stroke : Stroke α}
    (h : Stroke.start first settings.style settings.tool = .ok stroke)
    (log : List (LedgerEntry α)) : OpenIn (log ++ [.opened settings first]) stroke :=
  .of_draft ((Draft.stroke_opened settings first).trans h) log

/-- The ledger with one entry more accounts for a session if the entry tells what is new in it. -/
theorem Booked.note (h : Booked log s) {entry : LedgerEntry α}
    (hnumbers : List.range' 1 t.committed = List.range' 1 s.committed ++ entry.id?.toList)
    (hbalance : entry.isOpening.toNat + s.live.isSome.toNat =
      entry.isCommit.toNat + entry.isDrop.toNat + t.live.isSome.toNat)
    (hlive : ∀ l, t.live = some l → OpenIn (log ++ [entry]) l.stroke)
    (hkept : ∀ ink ∈ t.kept, ink ∈ s.kept ∨ CommittedIn (log ++ [entry]) ink) :
    Booked (log ++ [entry]) t where
  numbers := by
    rw [List.filterMap_append, h.numbers, hnumbers]
    cases entry <;> rfl
  balance := by
    have hbefore := h.balance
    have hcount (p : LedgerEntry α → Bool) :
        (log ++ [entry]).countP p = log.countP p + (p entry).toNat := by
      rw [List.countP_append, List.countP_singleton]
      cases p entry <;> rfl
    rw [hcount, hcount, hcount]
    omega
  live := hlive
  kept ink hink := by
    rcases hkept ink hink with hold | hnew
    · exact (h.kept ink hold).append _
    · exact hnew

theorem Booked.inkless (h : Booked log s) (hst : Inkless s t) : Booked (log ++ []) t := by
  rw [List.append_nil]
  constructor
  · rw [hst.committed]
    exact h.numbers
  · rw [hst.live]
    exact h.balance
  · rw [hst.live]
    exact h.live
  · intro ink hink
    exact h.kept ink (hst.kept hink)

theorem Booked.finish (h : Booked log s) : Booked (log ++ s.finishEntries) s.finishStroke.1 := by
  unfold finishEntries
  cases hl : s.live with
  | none =>
    rw [finishStroke_of_none hl]
    exact h.inkless (.refl s)
  | some l =>
    rw [finishStroke_of_some hl]
    change Booked (log ++ [.committed (s.committed + 1)]) (s.settle l)
    refine h.note ?_ (by rw [hl]; rfl) nofun ?_
    · change List.range' 1 (s.committed + 1) = _
      rw [List.range'_1_concat, Nat.add_comm 1]
      rfl
    · intro ink hink
      rcases mem_kept_settle hink with hold | rfl
      · exact .inl hold
      · exact .inr ((h.live l hl).committed _)

theorem Booked.extend (h : Booked log s) (next : Sample α) :
    Booked (log ++ s.extendEntries next) (s.extendStroke next).1 := by
  unfold extendEntries
  cases hl : s.live with
  | none =>
    rw [extendStroke_of_none hl]
    exact h.inkless (.refl s)
  | some l =>
    cases hext : l.extend next with
    | error e =>
      rw [extendStroke_of_error hl hext]
      exact h.inkless (.refl s)
    | ok m =>
      rw [extendStroke_of_ok hl hext]
      change Booked (log ++ [.extended next]) _
      refine h.note (List.append_nil _).symm (by rw [hl]; rfl) ?_ (fun ink => .inl)
      rintro m' ⟨⟩
      exact (h.live l hl).extended (Live.of_extend hext).1

theorem Booked.cancel (h : Booked log s) :
    Booked (log ++ s.cancelEntries) s.cancelStroke.1 := by
  unfold cancelEntries
  cases hl : s.live with
  | none =>
    rw [cancelStroke_of_none hl]
    exact h.inkless (.refl s)
  | some l =>
    rw [cancelStroke_of_some hl]
    change Booked (log ++ [.dropped]) _
    exact h.note (List.append_nil _).symm (by rw [hl]; rfl) nofun (fun ink => .inl)

theorem Booked.opened (h : Booked log s) (hidle : s.live = none) {settings : Settings α}
    {first : Sample α} {l : Live α} (hstart : Live.start first settings = .ok l) :
    Booked (log ++ [.opened settings first]) { s with live := some l }.touch := by
  refine h.note (List.append_nil _).symm (by rw [hidle]; rfl) ?_ (fun ink => .inl)
  rintro m ⟨⟩
  exact .opened (Live.of_start hstart).1 log

theorem Booked.begin (h : Booked log s) (first : Sample α) :
    Booked (log ++ s.beginEntries first) (s.beginStroke first).1 := by
  unfold beginEntries
  rw [← List.append_assoc]
  cases hstart : Live.start first s.settings with
  | error e =>
    rw [beginStroke_of_error hstart]
    exact h.finish.inkless (.refl _)
  | ok l =>
    rw [beginStroke_of_ok hstart]
    exact h.finish.opened s.finishStroke_live hstart

theorem Booked.obey (h : Booked log s) (command : Command α) :
    Booked (log ++ s.obeyEntries command) (s.obey command).1 := by
  cases command with
  | begin first => exact h.begin first
  | extend next => exact h.extend next
  | finish last =>
    cases last with
    | none => exact h.finish
    | some p =>
      rw [obeyEntries, ← List.append_assoc]
      exact (h.extend p).finish
  | cancel => exact h.cancel
  | restart first =>
    rw [obeyEntries, ← List.append_assoc]
    exact h.cancel.begin first
  | erase p => exact h.inkless (s.eraseAt_inkless p)
  | view v => exact h.inkless (s.view_inkless v)

theorem Booked.obey? (h : Booked log s) (command : Option (Command α)) :
    Booked (log ++ s.obeyEntries? command) (s.obey? command).1 := by
  cases command with
  | none => exact h.inkless (.refl s)
  | some command => exact h.obey command

theorem Booked.steered (h : Booked log s) (arbiter : Arbiter α) : Booked log { s with arbiter } :=
  ⟨h.numbers, h.balance, h.live, h.kept⟩

theorem Booked.perform (h : Booked log s) (a : Action α) :
    Booked (log ++ s.performEntries a) (s.perform a).1 := by
  cases a with
  | beginStroke first => exact h.begin first
  | extendStroke next => exact h.extend next
  | finishStroke => exact h.finish
  | cancelStroke => exact h.cancel
  | handle e => exact (h.steered _).obey? _
  | interrupt =>
    rw [performEntries, ← List.append_assoc]
    exact ((h.steered _).obey? _).finish
  | _ => exact h.inkless (s.perform_inkless rfl nofun nofun)

theorem Booked.run (h : Booked log s) (actions : List (Action α)) :
    Booked (log ++ s.ledger actions) (s.run actions) := by
  induction actions generalizing s log with
  | nil => exact h.inkless (.refl s)
  | cons a actions ih =>
    rw [ledger, ← List.append_assoc, run_cons]
    exact ih (h.perform a)

end Session
end InkCanvas
