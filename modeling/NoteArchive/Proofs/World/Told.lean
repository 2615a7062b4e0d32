import NoteArchive.Proofs.World.Frame

/-!
# What operations tell

Events are never taken back, so an operation tells a row of events, which is put together from
what its parts tell.

* `World.Told P`: between two worlds events were told, all of one kind.
* `Act.Tells P`: whatever an operation comes to, all that it tells is of one kind.
* `Tells.bind`: a chain of operations tells what its parts tell.
-/

namespace NoteArchive

/-- Between two worlds events were told, all of one kind. -/
def World.Told (P : Event → Prop) (w w' : World) : Prop :=
  ∃ events, w'.events = w.events ++ events ∧ ∀ e ∈ events, P e

namespace World.Told

variable {P Q : Event → Prop} {w w' w'' : World}

theorem of_eq (h : w'.events = w.events) : World.Told P w w' :=
  ⟨[], by rw [h, List.append_nil], by simp⟩

theorem trans (h : World.Told P w w') (h' : World.Told P w' w'') : World.Told P w w'' := by
  obtain ⟨events, he, hP⟩ := h
  obtain ⟨more, hm, hP'⟩ := h'
  refine ⟨events ++ more, by rw [hm, he, List.append_assoc], fun e hmem => ?_⟩
  rcases List.mem_append.1 hmem with hmem | hmem
  · exact hP e hmem
  · exact hP' e hmem

theorem mono (h : World.Told P w w') (hPQ : ∀ e, P e → Q e) : World.Told Q w w' := by
  obtain ⟨events, he, hP⟩ := h
  exact ⟨events, he, fun e hmem => hPQ e (hP e hmem)⟩

end World.Told

namespace Act

variable {α β : Type} {P Q : Event → Prop} {act : Act α} {next : α → Act β}

/-- Whatever the operation comes to, all that it tells is of one kind. -/
def Tells (P : Event → Prop) (act : Act α) : Prop := Within (World.Told P) act

theorem tells_pure (a : α) : Tells P (pure a : Act α) := fun _ => .of_eq rfl

theorem tells_throw (e : Failure) : Tells P (throw e : Act α) := fun _ => .of_eq rfl

theorem tells_ofExcept (r : Except Failure α) : Tells P (ofExcept r) := fun _ => .of_eq rfl

theorem tells_get : Tells P (get : Act World) := fun _ => .of_eq rfl

theorem tells_readClock : Tells P readClock := fun _ => .of_eq rfl

theorem tells_tell {e : Event} (h : P e) : Tells P (tell e) :=
  fun _ => ⟨[e], rfl, by simpa using h⟩

theorem tells_tellProgress {p : ProgressEvent} (h : P (.progress p)) : Tells P (tellProgress p) :=
  tells_tell h

theorem tells_tellAll {records : List Record} (h : ∀ r ∈ records, P (.record r)) :
    Tells P (tellAll records) :=
  fun _ => ⟨records.map .record, rfl, by simpa using h⟩

theorem tells_notify {text : String} (h : P (.notice text)) : Tells P (notify text) :=
  fun _ => ⟨[.notice text], rfl, by simpa using h⟩

theorem Tells.mono (h : Tells P act) (hPQ : ∀ e, P e → Q e) : Tells Q act :=
  fun w => (h w).mono hPQ

theorem Tells.attempt (h : Tells P act) : Tells P act.attempt := h

theorem Tells.bind (h : Tells P act) (hnext : ∀ a, Tells P (next a)) : Tells P (act >>= next) := by
  intro w
  rcases hrun : (act >>= next).runIn w with ⟨r, w'⟩
  rcases runIn_bind_cases hrun with ⟨a, w₁, hact, hlater⟩ | ⟨e, hact, -⟩
  · exact (h.of_runIn hact).trans ((hnext a).of_runIn hlater)
  · exact h.of_runIn hact

/-- A world that is put in the place of the one that was looked at has the events of this one. -/
theorem tells_get_bind {next : World → Act β}
    (h : ∀ w, World.Told P w ((next w).runIn w).2) : Tells P (get >>= next) := by
  intro w
  rw [runIn_get_bind]
  exact h w

theorem tells_ite {c : Prop} [Decidable c] {act' : Act α} (h : Tells P act) (h' : Tells P act') :
    Tells P (if c then act else act') := by
  split
  · exact h
  · exact h'

theorem tells_takeTurn (t : Turn) : Tells P (takeTurn t) := by
  intro w
  rw [runIn_takeTurn]
  split <;> exact .of_eq rfl

theorem tells_interrupt (t : Turn) : Tells P (interrupt t) := by
  intro w
  rw [runIn_interrupt]
  split <;> exact .of_eq rfl

end Act

end NoteArchive
