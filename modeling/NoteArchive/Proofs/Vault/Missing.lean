import Mathlib.Data.List.Infix
import NoteArchive.Proofs.Vault.Folders

/-!
# What making a folder adds

* `Vault.missing`: the places on the way of a folder at which nothing is.
* `runIn_ensureFolder_of_there`: where all of them are taken, making the folder does nothing.
* `added_by_ensureFolder`: what is made of them is an initial segment, whatever fails, and all of
  them where making the folder ends well.
-/

namespace NoteArchive

open Act

/-! ## Rows of names that become longer -/

theorem pairwise_inits {α : Type} (l : List α) : l.inits.Pairwise (· <+: ·) := by
  induction l with
  | nil => exact List.pairwise_singleton _ _
  | cons a l ih =>
    rw [List.inits_cons, List.pairwise_cons, List.pairwise_map]
    refine ⟨fun _ _ => List.nil_prefix, ih.imp fun h => ?_⟩
    exact List.cons_prefix_cons.2 ⟨rfl, h⟩

/-- What is kept of a list is an initial segment, if with each member all before it are kept. -/
theorem filter_prefix_of_pairwise {α : Type} {keep : α → Bool} {l : List α}
    (h : l.Pairwise fun a b => keep b = true → keep a = true) : l.filter keep <+: l := by
  induction l with
  | nil => exact List.nil_prefix
  | cons a l ih =>
    rw [List.pairwise_cons] at h
    by_cases ha : keep a = true
    · rw [List.filter_cons_of_pos ha]
      exact List.cons_prefix_cons.2 ⟨rfl, ih h.2⟩
    · have hnone : l.filter keep = [] :=
        List.filter_eq_nil_iff.2 fun b hb hk => ha (h.1 b hb hk)
      rw [List.filter_cons_of_neg ha, hnone]
      exact List.nil_prefix

namespace Vault

variable {v : Vault} {folder : String} {w w' : World}

/-! ## The missing places -/

/-- The places on the way of a folder at which nothing is, the shortest first. -/
def missing (v : Vault) (d : Disk) (folder : String) : List Place :=
  ((Path.ofString folder).parts.inits.filter fun names =>
    names ≠ [] ∧ d.get? (v.place ++ names) = none).map (v.place ++ ·)

theorem mem_missing_iff {d : Disk} {p : Place} :
    p ∈ v.missing d folder ↔
      ∃ names, names ≠ [] ∧ names <+: (Path.ofString folder).parts ∧ p = v.place ++ names ∧
        d.get? p = none := by
  simp only [missing, List.mem_map, List.mem_filter, List.mem_inits, decide_eq_true_eq]
  constructor
  · rintro ⟨names, ⟨hp, hn, hnone⟩, rfl⟩
    exact ⟨names, hn, hp, rfl, hnone⟩
  · rintro ⟨names, hn, hp, rfl, hnone⟩
    exact ⟨names, ⟨hp, hn, hnone⟩, rfl⟩

theorem pairwise_missing (v : Vault) (d : Disk) (folder : String) :
    (v.missing d folder).Pairwise (· <+: ·) := by
  unfold missing
  rw [List.pairwise_map]
  exact ((pairwise_inits _).filter _).imp fun h => (List.prefix_append_right_inj _).2 h

/-! ## Nothing is made twice -/

/-- Where something is at all places on the way, the steps there do nothing. -/
theorem runIn_ensureSteps_of_there (done : List String) {rest : List String}
    (hparts : ∀ name ∈ done ++ rest, Path.IsPart name) (hup : ".." ∉ done ++ rest)
    (ht : w.disk.IsTree)
    (hall : ∀ more, more <+: rest → more ≠ [] → (v.spot (done ++ more)).Accepted w.disk ∧
      ∃ e, w.disk.get? (v.place ++ (done ++ more)) = some e) :
    (v.ensureSteps ((Path.stepsFrom done rest).map fun names => (Path.mk "" names).text)).runIn w =
      (.ok (), w) := by
  induction rest generalizing done with
  | nil => rfl
  | cons name rest ih =>
    rw [List.append_cons] at hparts hup
    have hthere : (v.isThere (Path.mk "" (done ++ [name])).text).runIn w = (.ok true, w) := by
      rw [runIn_isThere_text (fun n hn => hparts n (List.mem_append_left _ hn))
        fun hm => hup (List.mem_append_left _ hm)]
      exact congrArg (·, w) ((Spot.isThere_eq_true_iff ht).2 (hall [name] (by simp) (by simp)))
    rw [Path.stepsFrom, List.map_cons, ensureSteps, runIn_bind_of_ok hthere]
    refine ih _ hparts hup fun more hmore _ => ?_
    rw [List.append_assoc]
    exact hall (name :: more) (List.cons_prefix_cons.2 ⟨rfl, hmore⟩) (by simp)

theorem runIn_ensureFolder_of_there (hin : isVaultRelative folder = true) (ht : w.disk.IsTree)
    (hall : ∀ names, names <+: (Path.ofString folder).parts → names ≠ [] →
      (v.spot names).Accepted w.disk ∧ ∃ e, w.disk.get? (v.place ++ names) = some e) :
    (v.ensureFolder folder).runIn w = (.ok (), w) := by
  obtain ⟨hm, hup⟩ := Path.isVaultRelative_iff.1 hin
  rw [ensureFolder, steps_of_relative hm]
  exact runIn_ensureSteps_of_there [] (fun name => Path.isPart_of_mem_parts) hup ht hall

/-- What could be made once is not made again. -/
theorem runIn_ensureFolder_twice (ht : w.disk.IsTree)
    (h : (v.ensureFolder folder).runIn w = (.ok (), w')) {w₂ : World} (hd : w₂.disk = w'.disk) :
    (v.ensureFolder folder).runIn w₂ = (.ok (), w₂) := by
  have hgrows := (within_ensureFolder v folder).of_runIn h ht
  obtain ⟨hin, hall⟩ := of_ensureFolder ht h
  refine runIn_ensureFolder_of_there hin (hd ▸ hgrows.isTree ht) fun names hp hn => ?_
  obtain ⟨hacc, he⟩ := hall names hp hn
  rw [hd]
  exact ⟨hacc.of_longestPath_eq hgrows.longestPath_eq, he⟩

end Vault

open Vault

/-- Whatever comes of making a folder, and whatever fails from outside: an initial segment of the
missing places on its way becomes folders, with nothing else in them, and nothing else changes.
Where it ends well all missing places are folders then, and making the folder again does nothing. -/
theorem added_by_ensureFolder (v : Vault) (folder : String) (w w' : World) (r : Except Failure Unit)
    (ht : w.disk.IsTree) (h : (v.ensureFolder folder).runIn w = (r, w')) :
    ∃ made, made <+: v.missing w.disk folder ∧
      (∀ p, w'.disk.get? p = if p ∈ made then some .folder else w.disk.get? p) ∧
      (∀ p ∈ made, ∀ rest, p ++ rest ∈ made ∨ w'.disk.get? (p ++ rest) = none) ∧
      (r = .ok () → made = v.missing w.disk folder ∧
        ∀ w₂ : World, w₂.disk = w'.disk → (v.ensureFolder folder).runIn w₂ = (.ok (), w₂)) := by
  have hgrows := (within_ensureFolder v folder).of_runIn h ht
  have ht' := hgrows.isTree ht
  let there (p : Place) : Bool := (w'.disk.get? p).isSome
  have hmem : ∀ p, p ∈ (v.missing w.disk folder).filter there ↔
      p ∈ v.missing w.disk folder ∧ ∃ e, w'.disk.get? p = some e := by
    intro p
    rw [List.mem_filter, Option.isSome_iff_exists]
  have hview : ∀ p, w'.disk.get? p =
      if p ∈ (v.missing w.disk folder).filter there then some .folder else w.disk.get? p := by
    intro p
    rcases hgrows.get?_cases p with hsame | ⟨hnone, hfolder, names, hn, hp, rfl, -⟩
    · rw [if_neg, hsame]
      rintro hp
      obtain ⟨hp, e, he⟩ := (hmem p).1 hp
      obtain ⟨-, -, -, -, hnone⟩ := mem_missing_iff.1 hp
      rw [hsame, hnone] at he
      cases he
    · rw [if_pos, hfolder]
      exact (hmem _).2 ⟨mem_missing_iff.2 ⟨names, hn, hp, rfl, hnone⟩, _, hfolder⟩
  refine ⟨(v.missing w.disk folder).filter there, ?_, hview, ?_, ?_⟩
  · -- what is above a folder that was made is a folder itself, so it was made if it was missing
    refine filter_prefix_of_pairwise ((pairwise_missing v w.disk folder).imp fun {p q} hpq hq => ?_)
    obtain ⟨e, he⟩ := Option.isSome_iff_exists.1 hq
    by_cases hpq' : p = q
    · rw [hpq']
      exact hq
    · exact Option.isSome_iff_exists.2 ⟨_, ht'.folder_of_prefix he hpq hpq'⟩
  · intro p hp rest
    obtain ⟨-, -, -, -, hnone⟩ := mem_missing_iff.1 ((hmem p).1 hp).1
    by_cases hrest : p ++ rest ∈ (v.missing w.disk folder).filter there
    · exact Or.inl hrest
    · refine Or.inr ?_
      rw [hview, if_neg hrest]
      exact ht.none_under_none hnone rest
  · rintro rfl
    refine ⟨List.filter_eq_self.2 fun p hp => ?_, fun w₂ hd => runIn_ensureFolder_twice ht h hd⟩
    obtain ⟨names, hn, hway, rfl, -⟩ := mem_missing_iff.1 hp
    exact Option.isSome_iff_exists.2 ((of_ensureFolder ht h).2 names hway hn).2

/-- The second of the missing folders is not made, and the first one stays. -/
theorem added_by_ensureFolder_interrupted :
    let v : Vault := ⟨⟨"/", ["v"]⟩, ["v"]⟩
    let w : World := .ofDisk { entries := [(["v"], .folder), (["v", "A"], .folder)] }
      { makeFolder := [none, some ⟨.system, "OSError", "disk full"⟩] }
    w.disk.IsTree ∧ ∃ e w' made, (v.ensureFolder "A//B/./C").runIn w = (.error e, w') ∧
      made <+: [["v", "A", "B"], ["v", "A", "B", "C"]] ∧
      ∀ p, w'.disk.get? p = if p ∈ made then some .folder else w.disk.get? p := by
  intro v w
  have ht : w.disk.IsTree := by decide
  have hmissing : v.missing w.disk "A//B/./C" = [["v", "A", "B"], ["v", "A", "B", "C"]] := by
    decide +kernel
  have herror : ((v.ensureFolder "A//B/./C").runIn w).1.toOption = none := by decide +kernel
  rcases hrun : (v.ensureFolder "A//B/./C").runIn w with ⟨e | u, w'⟩
  · obtain ⟨made, hmade, hview, -, -⟩ := added_by_ensureFolder v _ w w' _ ht hrun
    rw [hmissing] at hmade
    exact ⟨ht, e, w', made, rfl, hmade, hview⟩
  · rw [hrun] at herror
    cases herror

end NoteArchive
