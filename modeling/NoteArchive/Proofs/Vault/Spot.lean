import NoteArchive.Proofs.Disk.Growth
import NoteArchive.Proofs.Path.Names
import NoteArchive.Proofs.World.Frame
import NoteArchive.Vault

/-!
# Spots of a vault

What a path leads to in a vault, and when the system looks there at all.

* `Vault.placeOf`: the place of a path.  `Vault.resolve_eq_ok_iff`, `Vault.resolve_eq_error_iff`:
  which paths have a spot, and which are refused.
* `Spot.Accepted`: the system takes the path of a spot.  It takes the paths above a spot too.
* `Spot.isThere_eq_true_iff` and its like: on a tree the questions about a spot are answered by the
  view.
* `Spot.Overlong`: the system refuses to look at a spot.
* `accepted_of_append`, `accepted_root`: the system takes the paths above one that it takes.
-/

namespace NoteArchive

namespace Path

theorem utf8ByteSize_pos {name : String} (h : IsPart name) : 0 < name.utf8ByteSize := by
  rcases Nat.eq_zero_or_pos name.utf8ByteSize with h0 | h0
  · exact absurd (String.utf8ByteSize_eq_zero_iff.1 h0) h.ne_empty
  · exact h0

/-- The bytes of some names with a slash before each. -/
def bytesOf : List String → Nat
  | [] => 0
  | name :: rest => name.utf8ByteSize + 1 + bytesOf rest

theorem bytesOf_append (names more : List String) :
    bytesOf (names ++ more) = bytesOf names + bytesOf more := by
  induction names with
  | nil => rw [List.nil_append, bytesOf, Nat.zero_add]
  | cons name rest ih =>
    rw [List.cons_append, bytesOf, bytesOf, ih]
    omega

theorem utf8ByteSize_intercalate {names : List String} (h : names ≠ []) :
    ("/".intercalate names).utf8ByteSize + 1 = bytesOf names := by
  induction names with
  | nil => exact absurd rfl h
  | cons name rest ih =>
    by_cases hr : rest = []
    · rw [hr, String.intercalate_singleton, bytesOf, bytesOf, Nat.add_zero]
    · have hslash : "/".utf8ByteSize = 1 := rfl
      rw [String.intercalate_cons_of_ne_nil hr, bytesOf, ← ih hr, String.utf8ByteSize_append,
        String.utf8ByteSize_append, hslash]
      omega

/-- The text of a path with more names is longer. -/
theorem utf8ByteSize_text_join_le (p : Path) {names : List String} (hn : names ≠ [])
    (more : List String) :
    (p.join names).text.utf8ByteSize ≤ (p.join (names ++ more)).text.utf8ByteSize := by
  by_cases hm : more = []
  · exact Nat.le_of_eq (by rw [hm, List.append_nil])
  · have hne : p.parts ++ names ≠ [] := by simp [hn]
    have hne' : p.parts ++ (names ++ more) ≠ [] := by simp [hn]
    rw [join, join, text, text, if_neg hne, if_neg hne', ← List.append_assoc,
      String.intercalate_append_of_ne_nil hne hm]
    simp only [String.utf8ByteSize_append]
    omega

/-- The text of a path with names is longer than without them. -/
theorem utf8ByteSize_text_le_join (p : Path) {names : List String}
    (h : ∀ name ∈ names, IsPart name) :
    p.text.utf8ByteSize ≤ (p.join names).text.utf8ByteSize := by
  rcases names with _ | ⟨name, rest⟩
  · simp [join]
  have hjoin : (p.join (name :: rest)).text =
      p.mark ++ "/".intercalate (p.parts ++ name :: rest) := by
    rw [join, text, if_neg (by simp)]
  -- an empty path is written as one point, and names take up no less
  have hfirst : 0 < ("/".intercalate (name :: rest)).utf8ByteSize := by
    have hname := utf8ByteSize_pos (h name List.mem_cons_self)
    by_cases hr : rest = []
    · rwa [hr, String.intercalate_singleton]
    · rw [String.intercalate_cons_of_ne_nil hr, String.utf8ByteSize_append,
        String.utf8ByteSize_append]
      omega
  rw [hjoin, text, String.utf8ByteSize_append]
  split
  · next hp =>
    rw [hp, List.nil_append]
    split
    · exact Nat.le_trans hfirst (Nat.le_add_left _ _)
    · exact Nat.le_add_right _ _
  · next hp =>
    rw [String.intercalate_append_of_ne_nil hp (by simp)]
    simp only [String.utf8ByteSize_append]
    omega

theorem hasNull_append (a b : String) : hasNull (a ++ b) = (hasNull a || hasNull b) := by
  simp [hasNull]

theorem hasNull_intercalate (names : List String) :
    hasNull ("/".intercalate names) = names.any hasNull := by
  induction names with
  | nil => rfl
  | cons name rest ih =>
    by_cases hr : rest = []
    · simp [hr]
    · rw [String.intercalate_cons_of_ne_nil hr, hasNull_append, hasNull_append, ih]
      simp [hasNull]

theorem hasNull_text_join (p : Path) (names : List String) :
    hasNull (p.join names).text = (hasNull p.text || names.any hasNull) := by
  by_cases hn : names = []
  · simp [hn, join]
  · have hne : p.parts ++ names ≠ [] := by simp [hn]
    have hmark : hasNull p.text = (hasNull p.mark || p.parts.any hasNull) := by
      rw [text]
      split
      · next hp =>
        split
        · next hm =>
          rw [hm, hp]
          rfl
        · simp [hp]
      · rw [hasNull_append, hasNull_intercalate]
    rw [hmark, join, text, if_neg hne, hasNull_append, hasNull_intercalate, List.any_append,
      Bool.or_assoc]

end Path

namespace Vault

variable {v : Vault}

/-- The place of a path of the vault. -/
def placeOf (v : Vault) (path : String) : Place := v.place ++ (Path.ofString path).parts

/-- The paths that have a spot are those that stay inside the vault. -/
theorem resolve_eq_ok_iff {path : String} {s : Spot} :
    v.resolve path = .ok s ↔
      isVaultRelative path = true ∧ s = v.spot (Path.ofString path).parts := by
  rw [resolve]
  split
  · next h => simp [h, eq_comm]
  · next h => simp [h]

/-- Every other path is refused as one that could leave the vault. -/
theorem resolve_eq_error_iff {path : String} {e : Failure} :
    v.resolve path = .error e ↔
      isVaultRelative path = false ∧ e = .file (.outsideVault path) := by
  rw [resolve]
  split
  · next h => simp [h]
  · next h => simp [h, eq_comm]

theorem place_of_resolve {path : String} {s : Spot} (h : v.resolve path = .ok s) :
    s.place = v.placeOf path := by
  rw [(resolve_eq_ok_iff.1 h).2]
  rfl

/-- A row of names that is written down leads to its spot. -/
theorem resolve_text {names : List String} (h : ∀ name ∈ names, Path.IsPart name)
    (hup : ".." ∉ names) : v.resolve (Path.mk "" names).text = .ok (v.spot names) := by
  rw [resolve_eq_ok_iff, Path.isVaultRelative_iff, Path.ofString_text h]
  exact ⟨⟨rfl, hup⟩, rfl⟩

namespace Spot

/-- The system takes the path of a spot: it has no null character and is not too long. -/
structure Accepted (s : Spot) (d : Disk) : Prop where
  no_null : hasNull s.text = false
  takes : d.takesPath s.text = true

instance (s : Spot) (d : Disk) : Decidable (s.Accepted d) :=
  decidable_of_iff (hasNull s.text = false ∧ d.takesPath s.text = true)
    ⟨fun h => ⟨h.1, h.2⟩, fun h => ⟨h.1, h.2⟩⟩

theorem Accepted.of_longestPath_eq {s : Spot} {d d' : Disk} (h : s.Accepted d)
    (hd : d'.longestPath = d.longestPath) : s.Accepted d' := by
  refine ⟨h.no_null, ?_⟩
  rw [Disk.takesPath, hd]
  exact h.takes

variable {s : Spot} {d : Disk}

theorem entry?_of_accepted (h : s.Accepted d) :
    s.entry? d = match d.lookup s.place with
      | .found e => .ok (some e)
      | .missing => .ok none
      | .notFolder => .ok none
      | .nameTooLong => .error (.system (s.refusal .nameTooLong)) := by
  have hnull : ¬ hasNull s.text = true := by simp [h.no_null]
  unfold entry? lookup
  cases d.lookup s.place <;> simp only [if_neg hnull, if_pos h.takes]

/-- The system answers only for paths that it takes. -/
theorem accepted_of_entry?_eq_some {e : Entry} (h : s.entry? d = .ok (some e)) : s.Accepted d := by
  constructor
  · by_contra hnull
    unfold entry? at h
    rw [if_pos (by simpa using hnull)] at h
    cases h
  · by_contra htakes
    unfold entry? at h
    rw [lookup, if_neg htakes] at h
    split at h <;> cases h

theorem entry?_eq_some_iff (ht : d.IsTree) {e : Entry} :
    s.entry? d = .ok (some e) ↔ s.Accepted d ∧ d.get? s.place = some e := by
  constructor
  · intro h
    have hacc := accepted_of_entry?_eq_some h
    rw [entry?_of_accepted hacc] at h
    refine ⟨hacc, ?_⟩
    split at h
    · next hl =>
      cases h
      exact ht.lookup_eq_found_iff.1 hl
    all_goals cases h
  · rintro ⟨hacc, he⟩
    rw [entry?_of_accepted hacc, ht.lookup_eq_found_iff.2 he]

theorem isThere_eq_true_iff (ht : d.IsTree) :
    s.isThere d = .ok true ↔ s.Accepted d ∧ ∃ e, d.get? s.place = some e := by
  constructor
  · intro h
    rw [isThere] at h
    rcases he : s.entry? d with e | _ | e
    · rw [he] at h
      cases h
    · rw [he] at h
      cases h
    · obtain ⟨hacc, hget⟩ := (entry?_eq_some_iff ht).1 he
      exact ⟨hacc, e, hget⟩
  · rintro ⟨hacc, e, he⟩
    rw [isThere, (entry?_eq_some_iff ht).2 ⟨hacc, he⟩]
    rfl

/-- Where nothing is found nothing is there, if the system takes the path. -/
theorem of_isThere_eq_false (ht : d.IsTree) (h : s.isThere d = .ok false) :
    hasNull s.text = true ∨ (s.Accepted d ∧ d.get? s.place = none) := by
  by_cases hnull : hasNull s.text = true
  · exact Or.inl hnull
  · have htakes : d.takesPath s.text = true := by
      by_contra htakes
      unfold isThere entry? at h
      rw [if_neg hnull, lookup, if_neg htakes] at h
      cases h
    refine Or.inr ⟨⟨by simpa using hnull, htakes⟩, ?_⟩
    rcases he : d.get? s.place with _ | e
    · rfl
    · rw [(isThere_eq_true_iff ht).2 ⟨⟨by simpa using hnull, htakes⟩, e, he⟩] at h
      cases h

theorem isFolder_eq_true_iff (ht : d.IsTree) :
    s.isFolder d = .ok true ↔ s.Accepted d ∧ d.get? s.place = some .folder := by
  rw [← entry?_eq_some_iff ht, isFolder]
  rcases s.entry? d with e | _ | e
  · constructor <;> intro h <;> cases h
  · constructor <;> intro h <;> cases h
  · simp [Except.map]

/-- The search for a name that is not in a folder. -/
theorem isThere_eq_false (ht : d.IsTree) (h : s.Accepted d) {q : Place} {name : String}
    (hp : s.place = q ++ [name]) (hq : d.get? q = some .folder)
    (hs : Disk.isTooLong name = false) (hn : d.get? s.place = none) :
    s.isThere d = .ok false := by
  rw [hp] at hn
  rw [isThere, entry?_of_accepted h, hp, ht.lookup_missing hq hs hn]
  rfl

/-- A name that is looked for in a folder and not found is short enough to be there. -/
theorem short_of_isThere_eq_false (ht : d.IsTree) (h : s.Accepted d) {q : Place} {name : String}
    (hp : s.place = q ++ [name]) (hq : d.get? q = some .folder) (hn : s.isThere d = .ok false) :
    Disk.isTooLong name = false := by
  by_contra hs
  rw [Bool.not_eq_false] at hs
  rw [isThere, entry?_of_accepted h, hp, ht.lookup_append hq, Disk.lookupFrom, hq] at hn
  simp [hs, Except.map] at hn

/-! ### What the system refuses to look at -/

/-- The system refuses to look at a spot: its path is too long, or a name in a folder that is
there. -/
def Overlong (s : Spot) (d : Disk) : Prop :=
  hasNull s.text = false ∧
    (d.takesPath s.text = false ∨
      ∃ q name rest, s.place = q ++ name :: rest ∧ d.get? q = some .folder ∧
        Disk.isTooLong name = true)

/-- The refusal of the system to look at a spot. -/
def tooLong (s : Spot) : Failure := .system (s.refusal .nameTooLong)

theorem lookup_eq_nameTooLong_iff (ht : d.IsTree) :
    s.lookup d = .nameTooLong ↔
      d.takesPath s.text = false ∨
        ∃ q name rest, s.place = q ++ name :: rest ∧ d.get? q = some .folder ∧
          Disk.isTooLong name = true := by
  rw [← ht.lookup_eq_nameTooLong_iff, lookup]
  cases d.takesPath s.text <;> simp

theorem entry?_eq_error_iff (ht : d.IsTree) {e : Failure} :
    s.entry? d = .error e ↔ s.Overlong d ∧ e = s.tooLong := by
  rw [Overlong, ← lookup_eq_nameTooLong_iff ht, entry?, tooLong]
  by_cases hnull : hasNull s.text = true
  · simp [hnull]
  · rw [if_neg hnull]
    cases s.lookup d <;> simp [hnull, eq_comm]

theorem isThere_eq_error_iff (ht : d.IsTree) {e : Failure} :
    s.isThere d = .error e ↔ s.Overlong d ∧ e = s.tooLong := by
  rw [← entry?_eq_error_iff ht, isThere]
  cases s.entry? d <;> simp [Except.map]

theorem isFolder_eq_error_iff (ht : d.IsTree) {e : Failure} :
    s.isFolder d = .error e ↔ s.Overlong d ∧ e = s.tooLong := by
  rw [← entry?_eq_error_iff ht, isFolder]
  cases s.entry? d <;> simp [Except.map]

/-- Nothing is found where the path has a null character. -/
theorem isThere_of_hasNull (h : hasNull s.text = true) (d : Disk) : s.isThere d = .ok false := by
  rw [isThere, entry?, if_pos h]
  rfl

/-- The system says whether something is there, if it takes the path and all names in it. -/
theorem exists_isThere (ht : d.IsTree) (h : s.Accepted d)
    (hshort : ∀ name ∈ s.place, Disk.isTooLong name = false) :
    ∃ there, s.isThere d = .ok there := by
  rcases hq : s.isThere d with e | there
  · obtain ⟨⟨-, htakes | ⟨q, name, rest, hplace, -, hlong⟩⟩, -⟩ := (isThere_eq_error_iff ht).1 hq
    · rw [h.takes] at htakes
      cases htakes
    · rw [hshort name (by simp [hplace])] at hlong
      cases hlong
  · exact ⟨there, rfl⟩

end Spot

/-! ## The spots above a spot -/

theorem hasNull_spot (v : Vault) (names : List String) :
    hasNull (v.spot names).text = (hasNull v.text || names.any hasNull) :=
  Path.hasNull_text_join v.path names

theorem hasNull_text_of_accepted {d : Disk} {names : List String}
    (h : (v.spot names).Accepted d) : hasNull v.text = false := by
  have hnull := h.no_null
  rw [hasNull_spot, Bool.or_eq_false_iff] at hnull
  exact hnull.1

theorem accepted_of_append {d : Disk} {names more : List String} (hn : names ≠ [])
    (h : (v.spot (names ++ more)).Accepted d) : (v.spot names).Accepted d := by
  constructor
  · have := h.no_null
    rw [hasNull_spot] at this ⊢
    simp only [List.any_append, Bool.or_eq_false_iff] at this ⊢
    exact ⟨this.1, this.2.1⟩
  · have hle := Path.utf8ByteSize_text_join_le v.path hn more
    have := h.takes
    rw [Disk.takesPath, decide_eq_true_iff] at this ⊢
    exact Nat.le_trans hle this

/-- The system takes the path of a vault with a spot whose path it takes. -/
theorem accepted_root {d : Disk} {names : List String} (hparts : ∀ name ∈ names, Path.IsPart name)
    (h : (v.spot names).Accepted d) : (v.spot []).Accepted d := by
  have htext : (v.spot []).text = v.path.text := congrArg Path.text (by simp [Path.join])
  constructor
  · rw [htext]
    exact hasNull_text_of_accepted h
  · have := h.takes
    rw [Disk.takesPath, decide_eq_true_iff] at this ⊢
    rw [htext]
    exact Nat.le_trans (Path.utf8ByteSize_text_le_join v.path hparts) this

/-- The length of the path of a spot. -/
theorem utf8ByteSize_text_spot (h : v.path.parts ≠ []) (names : List String) :
    (v.spot names).text.utf8ByteSize + 1 =
      v.path.mark.utf8ByteSize + (Path.bytesOf v.path.parts + Path.bytesOf names) := by
  have hne : v.path.parts ++ names ≠ [] := List.append_ne_nil_of_left_ne_nil h names
  have htext : (v.spot names).text = v.path.mark ++ "/".intercalate (v.path.parts ++ names) := by
    rw [spot, Path.join, Path.text, if_neg hne]
  rw [htext, String.utf8ByteSize_append, Nat.add_assoc, Path.utf8ByteSize_intercalate hne,
    Path.bytesOf_append]

theorem no_null_of_accepted {d : Disk} {names : List String} (h : (v.spot names).Accepted d) :
    ∀ name ∈ names, '\x00' ∉ name.toList := by
  have := h.no_null
  rw [hasNull_spot, Bool.or_eq_false_iff, List.any_eq_false] at this
  intro name hname hmem
  exact this.2 name hname (by simpa [hasNull] using hmem)

/-- A name that counts in an accepted path can be the name of a file, if it is not too long. -/
theorem isName_of_accepted {d : Disk} {names : List String} {name : String}
    (h : (v.spot names).Accepted d) (hup : ".." ∉ names) (hname : name ∈ names)
    (hpart : Path.IsPart name) (hshort : Disk.isTooLong name = false) : IsName name where
  ne_empty := hpart.ne_empty
  ne_point := hpart.ne_point
  ne_points := fun he => hup (he ▸ hname)
  no_slash := hpart.no_slash
  no_null := no_null_of_accepted h name hname
  short := hshort

end Vault

end NoteArchive
