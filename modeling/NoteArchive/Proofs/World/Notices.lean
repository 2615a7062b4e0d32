import NoteArchive.Proofs.World.Frame

/-!
# Messages and failures of operations

* `Act.Silent`: an operation tells the user nothing.
* `Act.Fails`: an operation fails in a world.  `Act.Succeeds`: it does not fail in any.
* `Act.FailsSilently`: an operation that fails has told the user nothing.

A chain of operations is taken apart by `FailsSilently.bind_succeeds`, where nothing fails later.
-/

namespace NoteArchive.Act

variable {α β : Type}

/-- The user is told nothing. -/
def Silent (act : Act α) : Prop := Within (fun w w' => w'.notices = w.notices) act

/-- The operation has no result in a world. -/
def Fails (act : Act α) (w : World) : Prop := ∃ e, (act.runIn w).1 = .error e

/-- The operation has a result. -/
def Succeeds (act : Act α) : Prop := ∀ w, ∃ a w', act.runIn w = (.ok a, w')

/-- The user is told nothing by an operation that fails. -/
def FailsSilently (act : Act α) : Prop :=
  ∀ w w' e, act.runIn w = (.error e, w') → w'.notices = w.notices

section Silent

variable {act : Act α} {next : α → Act β}

theorem silent_pure (a : α) : Silent (pure a : Act α) := fun _ => rfl

theorem silent_throw (e : Failure) : Silent (throw e : Act α) := fun _ => rfl

theorem silent_ofExcept (r : Except Failure α) : Silent (ofExcept r) := fun _ => rfl

theorem silent_tell (e : Event) : Silent (tell e) := fun _ => rfl

theorem silent_get : Silent (get : Act World) := fun _ => rfl

theorem silent_readClock : Silent readClock := fun _ => rfl

theorem Silent.bind (h : Silent act) (hnext : ∀ a, Silent (next a)) : Silent (act >>= next) := by
  intro w
  rcases hrun : (act >>= next).runIn w with ⟨r, w'⟩
  rcases runIn_bind_cases hrun with ⟨a, w₁, hact, hlater⟩ | ⟨e, hact, -⟩
  · exact ((hnext a).of_runIn hlater).trans (h.of_runIn hact)
  · exact h.of_runIn hact

/-- A world that is put in the place of the one that was looked at has the messages of this one. -/
theorem silent_get_bind {next : World → Act β}
    (h : ∀ w, ((next w).runIn w).2.notices = w.notices) : Silent (get >>= next) := by
  intro w
  rw [runIn_get_bind]
  exact h w

theorem silent_ite {c : Prop} [Decidable c] {act' : Act α} (h : Silent act) (h' : Silent act') :
    Silent (if c then act else act') := by
  split
  · exact h
  · exact h'

theorem silent_takeTurn (t : Turn) : Silent (takeTurn t) := by
  intro w
  rw [runIn_takeTurn]
  split <;> rfl

theorem silent_interrupt (t : Turn) : Silent (interrupt t) := by
  intro w
  rw [runIn_interrupt]
  split <;> rfl

end Silent

section Succeeds

variable {act : Act α} {next : α → Act β}

theorem succeeds_pure (a : α) : Succeeds (pure a : Act α) := fun w => ⟨a, w, rfl⟩

theorem succeeds_tell (e : Event) : Succeeds (tell e) := fun _ => ⟨(), _, rfl⟩

theorem succeeds_attempt (act : Act α) : Succeeds act.attempt :=
  fun w => ⟨_, _, runIn_attempt act w⟩

theorem Succeeds.bind (h : Succeeds act) (hnext : ∀ a, Succeeds (next a)) :
    Succeeds (act >>= next) := by
  intro w
  obtain ⟨a, w₁, hact⟩ := h w
  rw [runIn_bind_of_ok hact]
  exact hnext a w₁

theorem Succeeds.not_fails (h : Succeeds act) (w : World) : ¬ act.Fails w := by
  rintro ⟨e, he⟩
  obtain ⟨a, w', hok⟩ := h w
  rw [hok] at he
  cases he

/-- A chain fails at its first part if nothing fails later. -/
theorem fails_bind_iff (hnext : ∀ a, Succeeds (next a)) (w : World) :
    (act >>= next).Fails w ↔ act.Fails w := by
  unfold Fails
  rw [runIn_bind]
  rcases act.runIn w with ⟨e | a, w₁⟩
  · exact iff_of_true ⟨e, rfl⟩ ⟨e, rfl⟩
  · refine iff_of_false ((hnext a).not_fails w₁) ?_
    rintro ⟨e, he⟩
    cases he

/-- A chain fails later if its first part has a result. -/
theorem fails_bind_of_ok {w w₁ : World} {a : α} (h : act.runIn w = (.ok a, w₁)) :
    (act >>= next).Fails w ↔ (next a).Fails w₁ := by
  unfold Fails
  rw [runIn_bind_of_ok h]

end Succeeds

section FailsSilently

variable {act : Act α} {next : α → Act β}

theorem Silent.failsSilently (h : Silent act) : FailsSilently act :=
  fun _ _ _ hrun => h.of_runIn hrun

theorem FailsSilently.bind_succeeds (h : FailsSilently act) (hnext : ∀ a, Succeeds (next a)) :
    FailsSilently (act >>= next) := by
  intro w w' e hrun
  rcases runIn_bind_cases hrun with ⟨a, w₁, -, hlater⟩ | ⟨e', hact, -⟩
  · obtain ⟨b, w₂, hok⟩ := hnext a w₁
    rw [hok] at hlater
    cases hlater
  · exact h _ _ _ hact

end FailsSilently

end NoteArchive.Act
