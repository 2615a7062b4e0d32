import NoteArchive.World
import Mathlib.Tactic.Common

/-!
# What operations keep

An operation is taken apart at its binds, and what all its parts keep, the whole keeps.

* `Act.runIn_bind_cases`: either the first part fails, or the second one goes on from it.
* `Act.Within R act`: the worlds before and after `act` stand in the relation `R`, whatever the
  operation comes to.  `IsFrame R`: such relations that a chain of operations keeps.
* `World.ofDisk`: a world for runs on a given disk.
* `calm_isFrame`: where no failure comes from outside, none will come later.
* `diskFrame`: a relation between disks as one between worlds.
-/

namespace NoteArchive

/-- Nothing fails from outside. -/
def World.Calm (w : World) : Prop := w.intrusions = {}

/-- A world with a disk and some failures to come, in which nothing else matters. -/
def World.ofDisk (disk : Disk) (intrusions : Intrusions := {}) : World :=
  { disk, intrusions
    home := .empty
    homePath := ⟨"/", []⟩
    clock := ⟨⟨⟨2024, 1, 1⟩, 0, 0, 0, 0⟩, []⟩ }

/-- The world with more events. -/
def World.heard (w : World) (events : List Event) : World :=
  { w with events := w.events ++ events }

theorem World.Calm.heard {w : World} (h : w.Calm) (events : List Event) :
    (w.heard events).Calm := h

/-- A relation between worlds that does not hang on what is told, and that chains keep. -/
structure IsFrame (R : World → World → Prop) : Prop where
  still : ∀ {w w' : World}, w'.disk = w.disk → (w.Calm → w'.Calm) → R w w'
  trans : ∀ {w₁ w₂ w₃ : World}, R w₁ w₂ → R w₂ w₃ → R w₁ w₃

theorem calm_isFrame : IsFrame fun w w' => w.Calm → w'.Calm where
  still _ hc := hc
  trans h h' hw := h' (h hw)

/-- A relation between disks as one between worlds. -/
def diskFrame (Q : Disk → Disk → Prop) (w w' : World) : Prop := Q w.disk w'.disk

theorem diskFrame_isFrame {Q : Disk → Disk → Prop} (hrefl : ∀ d, Q d d)
    (htrans : ∀ {d₁ d₂ d₃}, Q d₁ d₂ → Q d₂ d₃ → Q d₁ d₃) : IsFrame (diskFrame Q) where
  still hd _ := by
    rw [diskFrame, hd]
    exact hrefl _
  trans := htrans

theorem sameDisk_isFrame : IsFrame (diskFrame fun d d' => d' = d) :=
  diskFrame_isFrame (fun _ => rfl) fun h h' => h'.trans h

namespace Act

variable {α β : Type}

/-! ## Taking a chain apart -/

/-- Either the first part fails, or the second one goes on from it. -/
theorem runIn_bind_cases {act : Act α} {next : α → Act β} {w w' : World} {r : Except Failure β}
    (h : (act >>= next).runIn w = (r, w')) :
    (∃ a w₁, act.runIn w = (.ok a, w₁) ∧ (next a).runIn w₁ = (r, w')) ∨
      ∃ e, act.runIn w = (.error e, w') ∧ r = .error e := by
  rw [runIn_bind] at h
  rcases hact : act.runIn w with ⟨_ | a, w₁⟩
  · rw [hact] at h
    cases h
    exact Or.inr ⟨_, rfl, rfl⟩
  · rw [hact] at h
    exact Or.inl ⟨a, w₁, rfl, h⟩

/-- A chain with a result has a first part with a result. -/
theorem runIn_bind_ok {act : Act α} {next : α → Act β} {w w' : World} {b : β}
    (h : (act >>= next).runIn w = (.ok b, w')) :
    ∃ a w₁, act.runIn w = (.ok a, w₁) ∧ (next a).runIn w₁ = (.ok b, w') := by
  rcases runIn_bind_cases h with h | ⟨e, -, he⟩
  · exact h
  · cases he

theorem runIn_bind_of_ok {act : Act α} {w w₁ : World} {a : α} (h : act.runIn w = (.ok a, w₁))
    (next : α → Act β) : (act >>= next).runIn w = (next a).runIn w₁ := by
  rw [runIn_bind, h]

theorem runIn_bind_of_error {act : Act α} {w w₁ : World} {e : Failure}
    (h : act.runIn w = (.error e, w₁)) (next : α → Act β) :
    (act >>= next).runIn w = (.error e, w₁) := by
  rw [runIn_bind, h]

theorem eq_ok_of_toOption {r : Except Failure α} {a : α} (h : r.toOption = some a) :
    r = .ok a := by
  cases r with
  | error e => cases h
  | ok b => exact congrArg Except.ok (Option.some.inj h)

/-- A chain of checks ends well only if its first part does, and then the rest. -/
theorem bind_eq_ok {r : Except Failure α} {next : α → Except Failure β} {b : β}
    (h : (r >>= next) = .ok b) : ∃ a, r = .ok a ∧ next a = .ok b := by
  cases r with
  | error e => cases h
  | ok a => exact ⟨a, rfl, h⟩

/-- A chain of checks fails at its first part, or later. -/
theorem bind_eq_error {r : Except Failure α} {next : α → Except Failure β} {e : Failure}
    (h : (r >>= next) = .error e) : r = .error e ∨ ∃ a, r = .ok a ∧ next a = .error e := by
  cases r with
  | error e' =>
    cases h
    exact Or.inl rfl
  | ok a => exact Or.inr ⟨a, rfl, h⟩

theorem runIn_ofExcept_bind (r : Except Failure α) (next : α → Act β) (w : World) :
    (ofExcept r >>= next).runIn w =
      match r with
      | .ok a => (next a).runIn w
      | .error e => (.error e, w) := by
  rw [runIn_bind, runIn_ofExcept]
  cases r <;> rfl

theorem runIn_get_bind (next : World → Act β) (w : World) :
    (get >>= next).runIn w = (next w).runIn w := by
  rw [runIn_bind, runIn_get]

theorem runIn_throw_bind (e : Failure) (next : α → Act β) (w : World) :
    ((throw e : Act α) >>= next).runIn w = (.error e, w) := rfl

theorem runIn_set_bind (w₁ : World) (next : Unit → Act β) (w : World) :
    (set w₁ >>= next).runIn w = (next ()).runIn w₁ := rfl

theorem runIn_tell_bind (e : Event) (next : Unit → Act β) (w : World) :
    (tell e >>= next).runIn w = (next ()).runIn (w.heard [e]) := rfl

theorem runIn_tellAll_bind (records : List Record) (next : Unit → Act β) (w : World) :
    (tellAll records >>= next).runIn w = (next ()).runIn (w.heard (records.map .record)) := rfl

theorem runIn_ite (c : Prop) [Decidable c] (act act' : Act α) (w : World) :
    (if c then act else act').runIn w = if c then act.runIn w else act'.runIn w := by
  split <;> rfl

/-! ## What all parts keep -/

/-- The worlds before and after an operation stand in a relation. -/
def Within (R : World → World → Prop) (act : Act α) : Prop := ∀ w, R w (act.runIn w).2

section Within

variable {R : World → World → Prop}

theorem Within.of_runIn {act : Act α} (h : Within R act) {w w' : World} {r : Except Failure α}
    (hr : act.runIn w = (r, w')) : R w w' := by
  have := h w
  rwa [hr] at this

theorem within_pure (hR : IsFrame R) (a : α) : Within R (pure a : Act α) :=
  fun _ => hR.still rfl id

theorem within_throw (hR : IsFrame R) (e : Failure) : Within R (throw e : Act α) :=
  fun _ => hR.still rfl id

/-- What both parts keep, the chain keeps. -/
theorem Within.bind (hR : IsFrame R) {act : Act α} {next : α → Act β} (h : Within R act)
    (hnext : ∀ a, Within R (next a)) : Within R (act >>= next) := by
  intro w
  rw [runIn_bind]
  have hw := h w
  rcases hact : act.runIn w with ⟨_ | a, w₁⟩
  · rwa [hact] at hw
  · rw [hact] at hw
    exact hR.trans hw (hnext a w₁)

theorem Within.attempt {act : Act α} (h : Within R act) : Within R act.attempt := h

theorem within_tell (hR : IsFrame R) (e : Event) : Within R (tell e) := fun _ => hR.still rfl id

theorem within_takeTurn (hR : IsFrame R) (t : Turn) : Within R (takeTurn t) := by
  intro w
  rw [runIn_takeTurn]
  split
  · exact hR.still rfl id
  · next hturns =>
    refine hR.still rfl fun hc => ?_
    rw [hc] at hturns
    cases t <;> cases hturns

theorem within_interrupt (hR : IsFrame R) (t : Turn) : Within R (interrupt t) := by
  refine (within_takeTurn hR t).bind hR fun i => ?_
  cases i with
  | none => exact within_pure hR ()
  | some i => exact within_throw hR _

end Within

/-- Waiting for a failure from outside does not move the clock. -/
theorem clock_of_interrupt {t : Turn} {w w' : World} {r : Except Failure Unit}
    (h : (interrupt t).runIn w = (r, w')) : w'.clock = w.clock := by
  rw [runIn_interrupt] at h
  split at h <;> cases h <;> rfl

/-! ## No failure from outside -/

theorem runIn_takeTurn_of_calm {w : World} (h : w.Calm) (t : Turn) :
    (takeTurn t).runIn w = (.ok none, w) := by
  rw [runIn_takeTurn, h]
  cases t <;> rfl

theorem runIn_interrupt_of_calm {w : World} (h : w.Calm) (t : Turn) :
    (interrupt t).runIn w = (.ok (), w) := by
  rw [interrupt, runIn_bind_of_ok (runIn_takeTurn_of_calm h t)]
  rfl

end Act

end NoteArchive
