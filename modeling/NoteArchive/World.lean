import NoteArchive.Journal.Logging

/-!
# The world of an operation

An operation works on a disk, may fail, and tells what happens.

* `World`: the disk with the vaults, the disk with the home folder, which are apart, the folder
  where relative paths begin, the clock, the failures that are to come from outside, the messages
  to the user, and the events so far.
* `Act`: an operation.  A failed one leaves the world as it was when it failed.
* `Act.attempt`: an operation whose failure is a result.
* `tell`, `notify`, `interrupt`: events, messages, and failures from outside.
* `Act.runIn_bind` and its like: what a run of an operation comes to, for each way to make one.
-/

namespace NoteArchive

/-- The failures that are to come from outside: for each of four operations a row of turns, where
a turn without failure lets the operation go on.  When a row is used up, all goes on. -/
structure Intrusions where
  move : List (Option Intrusion) := []
  makeFolder : List (Option Intrusion) := []
  listing : List (Option Intrusion) := []
  systemMove : List (Option Intrusion) := []
  deriving Repr, DecidableEq

/-- The world of an operation.  Relative paths begin at `here`, `permitted` says whether vaults may
be read and written, and `stamp` stands for the time of the records in log files.

The home folder is on a disk of its own: the folder of the log files does not lie in a vault, and no
vault lies in it. -/
structure World where
  disk : Disk
  home : Disk
  homePath : Path
  here : Place := []
  clock : Clock
  permitted : Bool := true
  stamp : String := ""
  intrusions : Intrusions := {}
  notices : List String := []
  events : List Event := []

/-- An operation. -/
abbrev Act (α : Type) := ExceptT Failure (StateM World) α

namespace Act

/-- An operation run in a world: its result or its failure, and the world after it. -/
def runIn {α : Type} (act : Act α) (w : World) : Except Failure α × World := act.run.run w

/-- An operation whose failure is a result. -/
def attempt {α : Type} (act : Act α) : Act (Except Failure α) :=
  fun w => match act w with
    | (r, w') => (.ok r, w')

/-- The result of a part that is refused with a failure. -/
def ofExcept {α : Type} (r : Except Failure α) : Act α := fun w => (r, w)

/-! ### What a run of an operation comes to -/

variable {α β : Type}

theorem runIn_pure (a : α) (w : World) : (pure a : Act α).runIn w = (.ok a, w) := rfl

theorem runIn_throw (e : Failure) (w : World) : (throw e : Act α).runIn w = (.error e, w) := rfl

/-- A second operation follows where the first one has a result. -/
theorem runIn_bind (act : Act α) (next : α → Act β) (w : World) :
    (act >>= next).runIn w =
      match act.runIn w with
      | (.ok a, w') => (next a).runIn w'
      | (.error e, w') => (.error e, w') := by
  show (ExceptT.run (ExceptT.bind act next)).run w = _
  simp only [ExceptT.bind, ExceptT.run, ExceptT.mk, runIn]
  cases h : StateT.run act w with
  | mk r w' =>
    simp only [StateT.run_bind, h]
    cases r <;> rfl

theorem runIn_get (w : World) : (get : Act World).runIn w = (.ok w, w) := rfl

theorem runIn_set (w' w : World) : (set w' : Act Unit).runIn w = (.ok (), w') := rfl

theorem runIn_attempt (act : Act α) (w : World) :
    act.attempt.runIn w = (.ok (act.runIn w).1, (act.runIn w).2) := rfl

theorem runIn_ofExcept (r : Except Failure α) (w : World) : (ofExcept r).runIn w = (r, w) := rfl

end Act

def tell (e : Event) : Act Unit := modify fun w => { w with events := w.events ++ [e] }

def tellAll (records : List Record) : Act Unit :=
  modify fun w => { w with events := w.events ++ records.map .record }

def notify (text : String) : Act Unit :=
  modify fun w =>
    { w with events := w.events ++ [.notice text], notices := w.notices ++ [text] }

/-- The messages are forgotten. -/
def clearNotices : Act Unit := modify fun w => { w with notices := [] }

/-- An event for the progress log. -/
def tellProgress (p : ProgressEvent) : Act Unit := tell (.progress p)

/-- The moment that the clock shows, and the clock goes on. -/
def readClock : Act Moment := do
  let w ← get
  set { w with clock := w.clock.advance }
  return w.clock.now

theorem runIn_tell (e : Event) (w : World) :
    (tell e).runIn w = (.ok (), { w with events := w.events ++ [e] }) := rfl

theorem runIn_tellAll (records : List Record) (w : World) :
    (tellAll records).runIn w =
      (.ok (), { w with events := w.events ++ records.map .record }) := rfl

theorem runIn_notify (text : String) (w : World) :
    (notify text).runIn w =
      (.ok (), { w with
        events := w.events ++ [.notice text]
        notices := w.notices ++ [text] }) := rfl

/-- The row of turns of one of the four operations. -/
inductive Turn where
  | move
  | makeFolder
  | listing
  | systemMove
  deriving Repr, DecidableEq

namespace Intrusions

def turns (i : Intrusions) : Turn → List (Option Intrusion)
  | .move => i.move
  | .makeFolder => i.makeFolder
  | .listing => i.listing
  | .systemMove => i.systemMove

/-- The failures to come with another row for an operation. -/
def withTurns (i : Intrusions) (t : Turn) (row : List (Option Intrusion)) : Intrusions :=
  match t with
  | .move => { i with move := row }
  | .makeFolder => { i with makeFolder := row }
  | .listing => { i with listing := row }
  | .systemMove => { i with systemMove := row }

end Intrusions

/-- The failure of this turn of an operation, if there is one. -/
def takeTurn (t : Turn) : Act (Option Intrusion) := do
  let w ← get
  match w.intrusions.turns t with
  | [] => return none
  | turn :: rest =>
    set { w with intrusions := w.intrusions.withTurns t rest }
    return turn

/-- An operation fails when its turn says so. -/
def interrupt (t : Turn) : Act Unit := do
  match ← takeTurn t with
  | none => return ()
  | some i => throw (.intrusion i)

/-- A turn of an operation is used up, whether the operation fails or not. -/
theorem runIn_takeTurn (t : Turn) (w : World) :
    (takeTurn t).runIn w =
      match w.intrusions.turns t with
      | [] => (.ok none, w)
      | turn :: rest => (.ok turn, { w with intrusions := w.intrusions.withTurns t rest }) := by
  unfold takeTurn
  rw [Act.runIn_bind, Act.runIn_get]
  dsimp only
  cases w.intrusions.turns t <;> rfl

theorem runIn_interrupt (t : Turn) (w : World) :
    (interrupt t).runIn w =
      match w.intrusions.turns t with
      | [] => (.ok (), w)
      | none :: rest => (.ok (), { w with intrusions := w.intrusions.withTurns t rest })
      | some i :: rest =>
        (.error (.intrusion i), { w with intrusions := w.intrusions.withTurns t rest }) := by
  unfold interrupt
  rw [Act.runIn_bind, runIn_takeTurn]
  match w.intrusions.turns t with
  | [] => rfl
  | none :: _ => rfl
  | some _ :: _ => rfl

end NoteArchive
