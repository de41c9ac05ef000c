import Mathlib.Data.List.Induction
import Storyboard.Disk

namespace Storyboard

/-- An event in the history of a store: files are written or removed, in whatever way, the store is
cleared, or it is called. -/
inductive Event (α : Type) where
  | edit (change : Disk → Disk)
  | clear
  | call (a : α)

namespace Event

variable {α σ : Type} {events before : List (Event α)} {a b : α}

/-- A disk and a store after a step. -/
def run (clear : σ → σ) (call : Disk → α → σ → σ) (now : Disk × σ) : Event α → Disk × σ
  | edit change => (change now.1, now.2)
  | .clear => (now.1, clear now.2)
  | .call a => (now.1, call now.1 a now.2)

/-- That a call follows on the events before it, and no clear follows on the call. -/
def Since (events before : List (Event α)) (a : α) : Prop :=
  ∃ behind, events = before ++ call a :: behind ∧ clear ∉ behind

@[simp] theorem since_nil : ¬ Since ([] : List (Event α)) before a := by
  simp [Since]

@[simp] theorem since_clear : ¬ Since (events ++ [clear]) before a := by
  intro h
  obtain ⟨behind, he, hclear⟩ := h
  cases behind using List.reverseRecOn with
  | nil => simp at he
  | append_singleton behind last =>
    rw [← List.cons_append, ← List.append_assoc] at he
    obtain rfl : clear = last := by simpa using (List.append_inj' he rfl).2
    exact hclear (by simp)

theorem since_append_singleton {event : Event α} (hevent : event ≠ clear) :
    Since (events ++ [event]) before a ↔
      Since events before a ∨ before = events ∧ event = call a := by
  constructor
  · intro h
    obtain ⟨behind, he, hclear⟩ := h
    cases behind using List.reverseRecOn with
    | nil =>
      obtain ⟨rfl, hlast⟩ := List.append_inj' he rfl
      exact .inr ⟨rfl, by simpa using hlast⟩
    | append_singleton behind last =>
      rw [← List.cons_append, ← List.append_assoc] at he
      obtain ⟨rfl, -⟩ := List.append_inj' he rfl
      exact .inl ⟨behind, rfl, fun hmem => hclear (List.mem_append_left _ hmem)⟩
  · intro h
    rcases h with ⟨behind, rfl, hclear⟩ | ⟨rfl, rfl⟩
    · exact ⟨behind ++ [event], by simp, by simpa [hclear] using hevent.symm⟩
    · exact ⟨[], rfl, List.not_mem_nil⟩

@[simp] theorem since_edit {change : Disk → Disk} :
    Since (events ++ [edit change]) before a ↔ Since events before a := by
  simp [since_append_singleton]

@[simp] theorem since_call :
    Since (events ++ [call b]) before a ↔ Since events before a ∨ before = events ∧ a = b := by
  simp [since_append_singleton, eq_comm]

variable {P : List (Event α) → α → Prop}

/-- That no call since the last clear is of a kind. -/
def NoneSince (P : List (Event α) → α → Prop) (events : List (Event α)) : Prop :=
  ∀ before a, Since events before a → ¬ P before a

/-- The first call of a kind since the last clear. -/
def First (P : List (Event α) → α → Prop) (events before : List (Event α)) (a : α) : Prop :=
  Since events before a ∧ P before a ∧ NoneSince P before

/-- The last call of a kind since the last clear. -/
def Last (P : List (Event α) → α → Prop) (events before : List (Event α)) (a : α) : Prop :=
  Since events before a ∧ P before a ∧
    ∀ other b, Since events other b → P other b → other.length ≤ before.length

theorem noneSince_nil : NoneSince P [] := fun _ _ h => absurd h since_nil

theorem noneSince_clear : NoneSince P (events ++ [clear]) := fun _ _ h => absurd h since_clear

theorem noneSince_edit {change : Disk → Disk} :
    NoneSince P (events ++ [edit change]) ↔ NoneSince P events := by
  simp [NoneSince]

theorem noneSince_call : NoneSince P (events ++ [call b]) ↔ NoneSince P events ∧ ¬ P events b := by
  simp only [NoneSince, since_call]
  constructor
  · intro h
    exact ⟨fun before a hsince => h before a (.inl hsince), h events b (.inr ⟨rfl, rfl⟩)⟩
  · intro h before a hsince
    rcases hsince with hsince | ⟨rfl, rfl⟩
    · exact h.1 before a hsince
    · exact h.2

/-- A first call is one that is not none. -/
theorem First.not_noneSince (h : First P events before a) : ¬ NoneSince P events :=
  fun hnone => hnone before a h.1 h.2.1

theorem not_first_nil : ¬ First P [] before a := fun h => since_nil h.1

theorem not_first_clear : ¬ First P (events ++ [clear]) before a := fun h => since_clear h.1

theorem first_edit {change : Disk → Disk} :
    First P (events ++ [edit change]) before a ↔ First P events before a := by
  simp [First]

theorem first_call : First P (events ++ [call b]) before a ↔
    First P events before a ∨ (before = events ∧ a = b) ∧ P events b ∧ NoneSince P events := by
  simp only [First, since_call]
  constructor
  · intro h
    obtain ⟨hsince | ⟨rfl, rfl⟩, hP, hnone⟩ := h
    · exact .inl ⟨hsince, hP, hnone⟩
    · exact .inr ⟨⟨rfl, rfl⟩, hP, hnone⟩
  · intro h
    rcases h with ⟨hsince, hP, hnone⟩ | ⟨⟨rfl, rfl⟩, hP, hnone⟩
    · exact ⟨.inl hsince, hP, hnone⟩
    · exact ⟨.inr ⟨rfl, rfl⟩, hP, hnone⟩

theorem Since.length_lt (h : Since events before a) : before.length < events.length := by
  obtain ⟨behind, rfl, -⟩ := h
  simp

theorem Last.not_noneSince (h : Last P events before a) : ¬ NoneSince P events :=
  fun hnone => hnone before a h.1 h.2.1

theorem not_last_nil : ¬ Last P [] before a := fun h => since_nil h.1

theorem not_last_clear : ¬ Last P (events ++ [clear]) before a := fun h => since_clear h.1

theorem last_edit {change : Disk → Disk} :
    Last P (events ++ [edit change]) before a ↔ Last P events before a := by
  simp [Last]

/-- A call of a kind is the last one until the next. -/
theorem last_call (h : P events b) :
    Last P (events ++ [call b]) before a ↔ before = events ∧ a = b := by
  simp only [Last, since_call]
  constructor
  · intro hlast
    obtain ⟨hsince | hnow, -, hlatest⟩ := hlast
    · exact absurd (hlatest events b (.inr ⟨rfl, rfl⟩) h) (Nat.not_le.mpr hsince.length_lt)
    · exact hnow
  · intro hnow
    obtain ⟨rfl, rfl⟩ := hnow
    refine ⟨.inr ⟨rfl, rfl⟩, h, fun other c hsince _ => ?_⟩
    rcases hsince with hsince | ⟨rfl, -⟩
    · exact Nat.le_of_lt hsince.length_lt
    · exact Nat.le_refl _

theorem last_other (h : ¬ P events b) :
    Last P (events ++ [call b]) before a ↔ Last P events before a := by
  simp only [Last, since_call]
  constructor
  · intro hlast
    obtain ⟨hsince | ⟨rfl, rfl⟩, hP, hlatest⟩ := hlast
    · exact ⟨hsince, hP, fun other c hother => hlatest other c (.inl hother)⟩
    · exact absurd hP h
  · intro hlast
    obtain ⟨hsince, hP, hlatest⟩ := hlast
    refine ⟨.inl hsince, hP, fun other c hother hPc => ?_⟩
    rcases hother with hother | ⟨rfl, rfl⟩
    · exact hlatest other c hother hPc
    · exact absurd hPc h

end Event

end Storyboard
