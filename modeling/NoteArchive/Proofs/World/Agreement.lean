import NoteArchive.Proofs.World.Frame

/-!
# Runs that come to the same

What is done to a vault hangs on the disk, on the failures to come and on the permission.  The
clock, the home folder and what was told so far make no difference to it.

* `World.Agrees`: worlds that differ at most in what makes no difference.
* `Act.Agrees`: operations that come to the same from such worlds.  `Agrees.bind`: so do chains of
  them.
* `Act.Telling`: an operation that only tells something, which makes no difference in a chain.
-/

namespace NoteArchive

/-- Worlds that differ at most in the clock, in the home folder and in what was told. -/
structure World.Agrees (w w' : World) : Prop where
  disk : w'.disk = w.disk
  intrusions : w'.intrusions = w.intrusions
  permitted : w'.permitted = w.permitted

namespace World.Agrees

variable {w w' w'' : World}

theorem refl (w : World) : w.Agrees w := ⟨rfl, rfl, rfl⟩

theorem symm (h : w.Agrees w') : w'.Agrees w := ⟨h.disk.symm, h.intrusions.symm, h.permitted.symm⟩

theorem trans (h : w.Agrees w') (h' : w'.Agrees w'') : w.Agrees w'' :=
  ⟨h'.disk.trans h.disk, h'.intrusions.trans h.intrusions, h'.permitted.trans h.permitted⟩

theorem calm (h : w.Agrees w') (hw : w.Calm) : w'.Calm := h.intrusions.trans hw

/-- Worlds that agree still do so with other disks, if these are the same. -/
theorem withDisk (h : w.Agrees w') (d : Disk) :
    World.Agrees { w with disk := d } { w' with disk := d } :=
  ⟨rfl, h.intrusions, h.permitted⟩

end World.Agrees

namespace Act

variable {α β : Type}

/-- Operations that have the same result from worlds that agree, and leave worlds that agree. -/
def Agrees (act act' : Act α) : Prop :=
  ∀ w w' : World, w.Agrees w' →
    (act'.runIn w').1 = (act.runIn w).1 ∧ (act.runIn w).2.Agrees (act'.runIn w').2

namespace Agrees

variable {act act' act'' : Act α}

theorem symm (h : Agrees act act') : Agrees act' act := by
  intro w w' hw
  obtain ⟨hr, ha⟩ := h w' w hw.symm
  exact ⟨hr.symm, ha.symm⟩

theorem trans (h : Agrees act act') (h' : Agrees act' act'') : Agrees act act'' := by
  intro w w' hw
  obtain ⟨hr, ha⟩ := h w w (.refl w)
  obtain ⟨hr', ha'⟩ := h' w w' hw
  exact ⟨hr'.trans hr, ha.trans ha'⟩

theorem of_runIn (h : Agrees act act') {w w' w₁ : World} (hw : w.Agrees w')
    {r : Except Failure α} (hr : act.runIn w = (r, w₁)) :
    ∃ w₁', act'.runIn w' = (r, w₁') ∧ w₁.Agrees w₁' := by
  obtain ⟨hsame, ha⟩ := h w w' hw
  rw [hr] at hsame ha
  exact ⟨(act'.runIn w').2, Prod.ext hsame rfl, ha⟩

/-- Chains agree when all their parts do. -/
theorem bind {next next' : α → Act β} (h : Agrees act act')
    (hnext : ∀ a, Agrees (next a) (next' a)) : Agrees (act >>= next) (act' >>= next') := by
  intro w w' hw
  obtain ⟨hr, ha⟩ := h w w' hw
  rw [runIn_bind, runIn_bind]
  rcases hact : act.runIn w with ⟨e | a, w₁⟩ <;> rcases hact' : act'.runIn w' with ⟨r', w₁'⟩ <;>
    rw [hact, hact'] at hr ha <;> obtain rfl := hr
  · exact ⟨rfl, ha⟩
  · exact hnext a w₁ w₁' ha

theorem attempt (h : Agrees act act') : Agrees act.attempt act'.attempt := by
  intro w w' hw
  obtain ⟨hr, ha⟩ := h w w' hw
  rw [runIn_attempt, runIn_attempt, hr]
  exact ⟨rfl, ha⟩

end Agrees

theorem agrees_pure (a : α) : Agrees (pure a : Act α) (pure a) := fun _ _ hw => ⟨rfl, hw⟩

theorem agrees_throw (e : Failure) : Agrees (throw e : Act α) (throw e) := fun _ _ hw => ⟨rfl, hw⟩

theorem agrees_throw_bind (e : Failure) (next next' : α → Act β) :
    Agrees ((throw e : Act α) >>= next) (throw e >>= next') := fun _ _ hw => ⟨rfl, hw⟩

theorem agrees_ofExcept (r : Except Failure α) : Agrees (ofExcept r) (ofExcept r) :=
  fun _ _ hw => ⟨rfl, hw⟩

theorem agrees_set {w w' : World} (h : w.Agrees w') : Agrees (set w : Act Unit) (set w') :=
  fun _ _ _ => ⟨rfl, h⟩

/-- What is read of the world may differ as far as worlds that agree do. -/
theorem agrees_get_bind {next next' : World → Act α}
    (h : ∀ w w', w.Agrees w' → Agrees (next w) (next' w')) :
    Agrees (get >>= next) (get >>= next') := by
  intro w w' hw
  rw [runIn_get_bind, runIn_get_bind]
  exact h w w' hw w w' hw

theorem agrees_takeTurn (t : Turn) : Agrees (takeTurn t) (takeTurn t) := by
  refine agrees_get_bind fun w w' hw => ?_
  rw [hw.intrusions]
  split
  · exact agrees_pure none
  · refine Agrees.bind (agrees_set ?_) fun _ => agrees_pure _
    exact ⟨hw.disk, rfl, hw.permitted⟩

theorem agrees_interrupt (t : Turn) : Agrees (interrupt t) (interrupt t) := by
  refine (agrees_takeTurn t).bind fun i => ?_
  cases i with
  | none => exact agrees_pure ()
  | some i => exact agrees_throw _

/-! ## What is only told -/

/-- The operation does not fail, and only tells something or moves the clock on. -/
def Telling (act : Act α) : Prop := ∀ w, ∃ a w', act.runIn w = (.ok a, w') ∧ w.Agrees w'

namespace Telling

variable {act act' : Act α} {next next' : α → Act β}

theorem agrees {tells tells' : Act Unit} (h : Telling tells) (h' : Telling tells') :
    Agrees tells tells' := by
  intro w w' hw
  obtain ⟨_, w₁, hact, hw₁⟩ := h w
  obtain ⟨_, w₁', hact', hw₁'⟩ := h' w'
  rw [hact, hact']
  exact ⟨rfl, hw₁.symm.trans (hw.trans hw₁')⟩

/-- What is told first makes no difference. -/
theorem bind_agrees {rest : Act β} (h : Telling act) (hnext : ∀ a, Agrees (next a) rest) :
    Agrees (act >>= next) rest := by
  intro w w' hw
  obtain ⟨a, w₁, hact, hw₁⟩ := h w
  rw [runIn_bind_of_ok hact]
  exact hnext a w₁ w' (hw₁.symm.trans hw)

theorem agrees_bind {rest : Act β} (h : Telling act) (hnext : ∀ a, Agrees rest (next a)) :
    Agrees rest (act >>= next) :=
  (h.bind_agrees fun a => (hnext a).symm).symm

/-- Operations may differ in what they tell. -/
theorem bind_bind (h : Telling act) (h' : Telling act')
    (hnext : ∀ a a', Agrees (next a) (next' a')) : Agrees (act >>= next) (act' >>= next') :=
  h.bind_agrees fun a => h'.agrees_bind fun a' => hnext a a'

end Telling

theorem telling_tell (e : Event) : Telling (tell e) := fun _ => ⟨(), _, rfl, rfl, rfl, rfl⟩

theorem telling_tellAll (records : List Record) : Telling (tellAll records) :=
  fun _ => ⟨(), _, rfl, rfl, rfl, rfl⟩

theorem telling_notify (text : String) : Telling (notify text) :=
  fun _ => ⟨(), _, rfl, rfl, rfl, rfl⟩

end Act

end NoteArchive
