import NoteArchive.Proofs.Vault.Inside

/-!
# Paths that lead to the same place

What a path leads to is told from its components, in whatever way it is written.

* `Path.realComponents`: the components of a path without empty ones and single points.
* `Path.isVaultRelative_eq_false_iff`: which paths could leave the vault.
* `Path.isVaultRelative_text`: a path could leave the vault exactly when it could as it is written
  down.
* `Path.text_mem_steps`: the steps to a folder lead up to the folder.
* `resolve_joined`, `resolve_written`, `map_resolve_steps`: the other ways to write a path, and the
  steps to it, lead to what their components lead to.
* `resolve_tells_real_components`: all of it together.
-/

namespace NoteArchive

namespace Path

variable {path : String}

/-! ## Components -/

/-- The components of a path between its slashes, without empty ones and single points. -/
def realComponents (path : String) : List String :=
  ((path.toList.splitOn '/').filter fun c => c ≠ [] ∧ c ≠ ['.']).map String.ofList

theorem parts_ofString (path : String) : (ofString path).parts = realComponents path := by
  show components path.toList = _
  rw [components, Text.splitOn_eq_list_splitOn, realComponents]

theorem up_mem_realComponents_iff :
    ".." ∈ realComponents path ↔ ['.', '.'] ∈ path.toList.splitOn '/' := by
  simp only [realComponents, List.mem_map, List.mem_filter, decide_eq_true_eq]
  constructor
  · rintro ⟨c, ⟨hc, -⟩, hup⟩
    obtain rfl : c = ['.', '.'] := by simpa using congrArg String.toList hup
    exact hc
  · intro h
    exact ⟨_, ⟨h, by decide⟩, rfl⟩

/-! ## Paths that could leave the vault -/

/-- The paths that could leave the vault begin with a slash or have a step up. -/
theorem isVaultRelative_eq_false_iff :
    isVaultRelative path = false ↔
      path.toList.head? = some '/' ∨ ['.', '.'] ∈ path.toList.splitOn '/' := by
  rw [← Bool.not_eq_true, isVaultRelative_iff, parts_ofString, up_mem_realComponents_iff,
    ofString_mark, markOf_eq_empty_iff]
  tauto

/-- A relative path is the same path as it is written down. -/
theorem ofString_text_ofString (h : (ofString path).mark = "") :
    ofString (ofString path).text = ofString path := by
  have hpath : ofString path = ⟨"", (ofString path).parts⟩ := by rw [← h]
  rw [hpath]
  exact ofString_text fun name => isPart_of_mem_parts

/-- A path could leave the vault exactly when it could as it is written down. -/
theorem isVaultRelative_text (path : String) :
    isVaultRelative (ofString path).text = isVaultRelative path := by
  by_cases hmark : (ofString path).mark = ""
  · rw [isVaultRelative, ofString_text_ofString hmark, isVaultRelative]
  · have hmark' : (ofString (ofString path).text).mark ≠ "" := mark_text_ne_empty hmark _
    simp [isVaultRelative, isInside, hmark, hmark']

/-! ## Steps -/

/-- The last step to a folder is the folder. -/
theorem text_mem_steps {p : Path} (h : p.mark ≠ "" ∨ p.parts ≠ []) : p.text ∈ p.steps := by
  rw [steps, List.mem_append]
  by_cases hparts : p.parts = []
  · have hmark := h.resolve_right (not_not.2 hparts)
    simp [text, hparts, hmark]
  · refine Or.inr (List.mem_map.2 ⟨p.parts, ?_, rfl⟩)
    obtain ⟨name, rest, hcons⟩ := List.exists_cons_of_ne_nil hparts
    rw [stepsFrom_eq, hcons]
    simp

end Path

namespace Vault

variable {v : Vault} {path : String}

/-! ## What paths lead to -/

theorem spot_inj {names names' : List String} : v.spot names = v.spot names' ↔ names = names' := by
  constructor
  · intro h
    exact List.append_cancel_left (congrArg Spot.place h)
  · rintro rfl
    rfl

section Inside

variable (h : isVaultRelative path = true)
include h

/-- A path that stays inside the vault leads to what its components lead to. -/
theorem resolve_of_inside : v.resolve path = .ok (v.spot (Path.realComponents path)) := by
  rw [resolve, if_pos h, Path.parts_ofString]

/-- So does the path that is joined from its components. -/
theorem resolve_joined :
    v.resolve ("/".intercalate (Path.realComponents path)) =
      .ok (v.spot (Path.realComponents path)) := by
  obtain ⟨-, hup⟩ := Path.isVaultRelative_iff.1 h
  have hread : Path.ofString ("/".intercalate (Path.ofString path).parts) =
      ⟨"", (Path.ofString path).parts⟩ :=
    Path.ofString_intercalate fun name => Path.isPart_of_mem_parts
  rw [← Path.parts_ofString, resolve_eq_ok_iff, Path.isVaultRelative_iff, hread]
  exact ⟨⟨rfl, hup⟩, rfl⟩

/-- So does the path as it is written down. -/
theorem resolve_written : v.resolve (Path.ofString path).text = v.resolve path := by
  have hread := Path.ofString_text_ofString (Path.isVaultRelative_iff.1 h).1
  rw [resolve, Path.isVaultRelative_text, hread, resolve, if_pos h, if_pos h]

/-- The same folders are made for it. -/
theorem ensureFolder_written : v.ensureFolder (Path.ofString path).text = v.ensureFolder path := by
  rw [ensureFolder, Path.ofString_text_ofString (Path.isVaultRelative_iff.1 h).1, ensureFolder]

/-- Each step to a folder of the vault leads to what its components lead to. -/
theorem map_resolve_steps :
    (Path.ofString path).steps.map v.resolve =
      (Path.realComponents path).inits.tail.map fun names => .ok (v.spot names) := by
  obtain ⟨hm, hup⟩ := Path.isVaultRelative_iff.1 h
  rw [steps_of_relative hm, Path.stepsFrom_eq, ← Path.parts_ofString, List.map_map, List.map_map]
  refine List.map_congr_left fun names hnames => ?_
  have hway : names <+: (Path.ofString path).parts :=
    (List.mem_inits _ _).1 (List.mem_of_mem_tail hnames)
  exact resolve_text (fun name hn => Path.isPart_of_mem_parts (hway.subset hn))
    fun hm => hup (hway.subset hm)

end Inside

/-- Where a path is refused, one of the steps to it is refused. -/
theorem exists_refused_step (h : isVaultRelative path = false) :
    ∃ step ∈ (Path.ofString path).steps, isVaultRelative step = false := by
  refine ⟨(Path.ofString path).text, Path.text_mem_steps ?_, ?_⟩
  · -- a path without mark and names is the vault itself
    by_contra hnot
    rw [not_or, not_not, not_not] at hnot
    rw [isVaultRelative, Path.isInside, hnot.1, hnot.2] at h
    cases h
  · rw [Path.isVaultRelative_text, h]

end Vault

open Vault

/-- A path is refused exactly when it begins with a slash or has a step up among its components;
then it is also refused as it is written down, and so is one of the steps on which its folders are
made.  Every other path leads to the vault followed by the components of the path without empty ones
and single points.  So does the path that is joined from these components, each step leads to what
its components lead to, and paths lead to the same exactly when these components are the same. -/
theorem resolve_tells_real_components (v : Vault) (path : String) :
    ((∃ e, v.resolve path = .error e) ↔
      path.toList.head? = some '/' ∨ ['.', '.'] ∈ path.toList.splitOn '/') ∧
    (∀ e, v.resolve path = .error e → e = .file (.outsideVault path) ∧
      (∃ e', v.resolve (Path.ofString path).text = .error e') ∧
      ∃ step ∈ (Path.ofString path).steps, ∃ e', v.resolve step = .error e') ∧
    ∀ s, v.resolve path = .ok s →
      s.place = v.place ++ Path.realComponents path ∧
      s.text = (v.path.join (Path.realComponents path)).text ∧
      v.resolve ("/".intercalate (Path.realComponents path)) = .ok s ∧
      v.resolve (Path.ofString path).text = .ok s ∧
      (Path.ofString path).steps.map v.resolve =
        (Path.realComponents path).inits.tail.map (fun names => .ok (v.spot names)) ∧
      v.ensureFolder (Path.ofString path).text = v.ensureFolder path ∧
      ∀ other t, v.resolve other = .ok t →
        (s = t ↔ Path.realComponents path = Path.realComponents other) := by
  refine ⟨?_, ?_, ?_⟩
  · rw [← Path.isVaultRelative_eq_false_iff]
    simp [resolve_eq_error_iff]
  · intro e he
    obtain ⟨hout, rfl⟩ := resolve_eq_error_iff.1 he
    obtain ⟨step, hstep, hrefused⟩ := exists_refused_step hout
    refine ⟨rfl, ⟨_, resolve_eq_error_iff.2 ⟨?_, rfl⟩⟩, step, hstep, _,
      resolve_eq_error_iff.2 ⟨hrefused, rfl⟩⟩
    rw [Path.isVaultRelative_text, hout]
  · intro s hs
    have hin := (resolve_eq_ok_iff.1 hs).1
    rw [resolve_of_inside hin] at hs
    cases hs
    refine ⟨rfl, rfl, resolve_joined hin, ?_, map_resolve_steps hin, ensureFolder_written hin, ?_⟩
    · rw [resolve_written hin, resolve_of_inside hin]
    · intro other t ht
      rw [resolve_of_inside (resolve_eq_ok_iff.1 ht).1] at ht
      cases ht
      exact spot_inj

/-- Empty components, points, and names that only begin with points; beside it a step up. -/
theorem resolve_tells_real_components_of_points :
    let v : Vault := ⟨⟨"/", ["v"]⟩, ["v"]⟩
    (∃ s, v.resolve "A//./..a/.../" = .ok s ∧ s.place = ["v", "A", "..a", "..."] ∧
      v.resolve "A/..a/..." = .ok s) ∧
    ∃ step ∈ (Path.ofString "A/../B").steps, ∃ e, v.resolve step = .error e := by
  intro v
  have hnames : Path.realComponents "A//./..a/.../" = ["A", "..a", "..."] := by decide +kernel
  have hin : v.resolve "A//./..a/.../" = .ok (v.spot ["A", "..a", "..."]) := by
    rw [resolve_of_inside (by decide +kernel), hnames]
  have hout : v.resolve "A/../B" = .error (.file (.outsideVault "A/../B")) :=
    resolve_eq_error_iff.2 ⟨by decide +kernel, rfl⟩
  obtain ⟨hplace, -, hjoined, -⟩ :=
    (resolve_tells_real_components v "A//./..a/.../").2.2 _ hin
  rw [hnames] at hplace hjoined
  exact ⟨⟨_, hin, hplace, hjoined⟩, ((resolve_tells_real_components v "A/../B").2.1 _ hout).2.2⟩

end NoteArchive
