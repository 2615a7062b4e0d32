import Mathlib.Tactic.Common
import NoteArchive.Proofs.DateFormat.Tokens

/-!
# Checking a format and compiling it

What a check says of a format is what happens when the format is compiled.

* `ignoredParts`: the parts that a check reports as ignored; `warnings`: what the log warns about
  while the format is compiled.
* `warnings_eq`: these are the same parts in the same order.
* `Usable`, `isValid_iff_usable`: the formats that can be used are those that are compiled to at
  least one token.
* `problems_eq_nil_iff`: nothing is wrong with a format exactly when it can be used and no part of
  it is ignored.
* `compile_agrees_with_check`: all of it together.
-/

namespace NoteArchive.DateFormat

/-! ## What is reported -/

/-- The part that a problem reports as ignored. -/
def Problem.ignored? : Problem → Option String
  | .ignoredPart part => some part
  | _ => none

/-- The parts that a check of a format reports as ignored, in order. -/
def ignoredParts (format : String) : List String := (problems format).filterMap Problem.ignored?

/-- What the log says when a part is ignored. -/
def ignoredRecord (part : String) : Record :=
  compileRecord .warning ("認識できない部分を無視: " ++ part)

/-- What the log warns about while a format is compiled, in order. -/
def warnings (format : String) : List Record :=
  (compileLog format).filter fun r => r.level = .warning

theorem ignoredParts_eq (format : String) :
    ignoredParts format = ((parts format.toList).filter Part.isUnrecognised).map Part.text := by
  unfold ignoredParts problems
  by_cases hempty : format.toList = []
  · rw [if_pos hempty, hempty]
    rfl
  · -- what concerns the format as a whole reports no part
    rw [if_neg hempty, List.filterMap_append, List.filterMap_append, List.filterMap_map]
    have htokens : (if hasUsableTokens format.toList then [] else
        [Problem.noTokens format]).filterMap Problem.ignored? = [] := by
      split <;> rfl
    have hmixed : (if hasMixedSeparators format.toList then
        [Problem.mixedSeparators format] else []).filterMap Problem.ignored? = [] := by
      split <;> rfl
    rw [htokens, hmixed, List.nil_append, List.nil_append]
    exact congrFun (List.filterMap_eq_map (f := Part.text)) _

/-- Of a part the log warns about at most one thing, namely that the part is ignored. -/
theorem filter_partLog (p : Part) : (partLog p).filter (fun r => r.level = .warning) =
    if p.isUnrecognised then [ignoredRecord p.text] else [] := by
  cases p with
  | separator c => rfl
  | segment s =>
    cases hs : tokenize s with
    | none => simp [partLog, Part.isUnrecognised, hs]; rfl
    | some ts =>
      have htokens : partLog (.segment s) = ts.map fun t =>
          compileRecord .debug ("トークンを追加: " ++ t.name ++ ": " ++ t.pattern) := by
        rw [partLog, hs]
      rw [htokens, List.filter_map]
      simp [Part.isUnrecognised, hs, compileRecord, Level.debug, Level.warning]

/-- The log warns about the parts that a check reports. -/
theorem warnings_eq {format : String} (h : hasMixedSeparators format.toList = false) :
    warnings format = (ignoredParts format).map ignoredRecord := by
  have hlog : compileLog format = compileRecord .debug ("正規表現を構築中: " ++ format) ::
      ((parts format.toList).flatMap partLog ++ [compileRecord .debug
        (format ++ " の正規表現: " ++ (Compiled.ofParts format).pattern)]) := by
    simp [compileLog, compile?, h]
  have hparts : ((parts format.toList).flatMap partLog).filter (fun r => r.level = .warning) =
      (((parts format.toList).filter Part.isUnrecognised).map Part.text).map ignoredRecord := by
    induction parts format.toList with
    | nil => rfl
    | cons p rest ih =>
      rw [List.flatMap_cons, List.filter_append, filter_partLog, ih]
      by_cases hp : p.isUnrecognised <;> simp [hp]
  unfold warnings
  rw [hlog, ignoredParts_eq, ← hparts]
  simp [compileRecord, Level.debug, Level.warning]

/-! ## The verdict -/

theorem isValid_iff {format : String} : isValid format = true ↔
    findTokens format.toList ≠ [] ∧ hasMixedSeparators format.toList = false := by
  simp [isValid, hasUsableTokens]

theorem compile_eq {format : String} (h : hasMixedSeparators format.toList = false) :
    compile format = .ok (.ofParts format) := by
  simp [compile, compile?, h]

theorem compile_of_mixed {format : String} (h : hasMixedSeparators format.toList = true) :
    compile format = .error (.mixedFormat format) := by
  simp [compile, compile?, h]

theorem ofParts_tokens_eq_findTokens (format : String) :
    (Compiled.ofParts format).tokens = findTokens format.toList := Compiled.ofParts_tokens format

/-- The format is compiled to at least one token. -/
def Usable (format : String) : Prop := ∃ c, compile format = .ok c ∧ c.tokens ≠ []

theorem isValid_iff_usable {format : String} : isValid format = true ↔ Usable format := by
  rw [isValid_iff]
  constructor
  · rintro ⟨htokens, hmixed⟩
    exact ⟨_, compile_eq hmixed, by rwa [ofParts_tokens_eq_findTokens]⟩
  · rintro ⟨c, hc, htokens⟩
    cases hmixed : hasMixedSeparators format.toList with
    | true =>
      rw [compile_of_mixed hmixed] at hc
      cases hc
    | false =>
      rw [compile_eq hmixed] at hc
      cases hc
      rw [ofParts_tokens_eq_findTokens] at htokens
      exact ⟨htokens, rfl⟩

/-- A usable format is compiled part by part. -/
theorem Usable.compile_eq {format : String} (h : Usable format) :
    compile format = .ok (.ofParts format) :=
  DateFormat.compile_eq (isValid_iff.1 (isValid_iff_usable.2 h)).2

/-- A format is used itself exactly when it is usable. -/
theorem resolve_eq_self_iff {format : String} : resolve format = format ↔ Usable format := by
  rw [← isValid_iff_usable, resolve]
  cases h : isValid format with
  | true => simp
  | false =>
    refine iff_of_false (fun hsame => ?_) Bool.false_ne_true
    have husual : usual = format := hsame
    rw [← husual, isValid_usual] at h
    cases h

/-- The separator of a compiled format is empty exactly when the format has none. -/
theorem separatorText_eq_empty_iff {format : String} :
    (Compiled.ofParts format).separatorText = "" ↔
      ∀ c ∈ format.toList, isSeparator c = false := by
  have hnone : lastSeparator format.toList = none ↔
      ∀ c ∈ format.toList, isSeparator c = false := by
    simp [lastSeparator, List.find?_eq_none]
  have hseparator : (Compiled.ofParts format).separator = lastSeparator format.toList := rfl
  rw [← hnone, Compiled.separatorText, hseparator]
  cases lastSeparator format.toList with
  | none => simp
  | some s => simp [String.ext_iff]

theorem problems_eq_nil_iff {format : String} :
    problems format = [] ↔ isValid format = true ∧ ignoredParts format = [] := by
  rw [isValid_iff, ignoredParts_eq]
  unfold problems
  by_cases hempty : format.toList = []
  · simp [hempty, findTokens, parts]
  · simp [hempty, hasUsableTokens, and_assoc]

/-- A check of a format and its compilation agree on every format.  Only mixed separators are a
failure; otherwise the compiled format has the tokens that the check finds, its separator is empty
exactly when there is none in the format, and the log warns about the parts that the check reports
as ignored.  A format can be used exactly when it is compiled to at least one token, and nothing is
wrong with it exactly when it can be used and the log warns about nothing. -/
theorem compile_agrees_with_check (format : String) :
    ((∃ e, compile format = .error e) ↔ hasMixedSeparators format.toList = true) ∧
    (hasMixedSeparators format.toList = true → compile format = .error (.mixedFormat format)) ∧
    (∀ c, compile format = .ok c →
      c.tokens = findTokens format.toList ∧
      (c.separatorText = "" ↔ ∀ ch ∈ format.toList, isSeparator ch = false) ∧
      warnings format = (ignoredParts format).map ignoredRecord) ∧
    (isValid format = true ↔ Usable format) ∧
    (problems format = [] ↔ isValid format = true ∧ warnings format = []) := by
  cases hmixed : hasMixedSeparators format.toList with
  | true =>
    have hcompile := compile_of_mixed hmixed
    have hvalid : isValid format = false := by simp [isValid, hmixed]
    refine ⟨⟨fun _ => rfl, fun _ => ⟨_, hcompile⟩⟩, fun _ => hcompile, ?_, isValid_iff_usable, ?_⟩
    · intro c hc
      rw [hcompile] at hc
      cases hc
    · rw [problems_eq_nil_iff]
      simp [hvalid]
  | false =>
    have hcompile := compile_eq hmixed
    refine ⟨?_, ?_, ?_, isValid_iff_usable, ?_⟩
    · simp [hcompile]
    · intro h
      cases h
    · intro c hc
      rw [hcompile] at hc
      cases hc
      exact ⟨ofParts_tokens_eq_findTokens format, separatorText_eq_empty_iff, warnings_eq hmixed⟩
    · rw [problems_eq_nil_iff, warnings_eq hmixed, List.map_eq_nil_iff]

/-- A format of which one part is ignored can be used, and the check says so as the log does. -/
example : isValid "Daily-DD" = true ∧ ignoredParts "Daily-DD" = ["Daily"] ∧
    (warnings "Daily-DD").map Record.line = ["WARNING 認識できない部分を無視: Daily"] := by
  decide +kernel

end NoteArchive.DateFormat
