import Mathlib.Data.Set.Function
import NoteArchive.Proofs.Disk.Growth

/-!
# Disks on which files are carried

* `Disk.FileMoved`: a file is at another place where nothing was, and nothing else changes.
* `Disk.Carries moves allowed d d'`: between `d` and `d'` the files at the first places of `moves`
  came to the second ones, which were free, and folders came at allowed places.
* `Carries.trans`: so it is when files are carried one after the other.
* `Carries.get?_eq`: the same files and the same folders make the same view.
* `Disk.carry`: where the moves take a place.  `Carries.bijOn_carry`: it takes the files of the
  one disk to those of the other, and each to the same content.
-/

namespace NoteArchive.Disk

/-- A file is at another place, where nothing was, and nothing else changes. -/
structure FileMoved (d d' : Disk) (source target : Place) : Prop where
  isFile : d.IsFile source
  free : d.get? target = none
  view : ∀ p, d'.get? p =
    if p = target then d.get? source else if p = source then none else d.get? p
  isTree : d'.IsTree
  longestPath_eq : d'.longestPath = d.longestPath

namespace FileMoved

variable {d d' : Disk} {source target : Place}

theorem folder (h : d.FileMoved d' source target) {p : Place} (hp : d.get? p = some .folder) :
    d'.get? p = some .folder := by
  have ht : p ≠ target := by
    rintro rfl
    rw [h.free] at hp
    cases hp
  have hs : p ≠ source := by
    rintro rfl
    exact not_isFile_of_folder hp h.isFile
  rw [h.view p, if_neg ht, if_neg hs, hp]

/-- What is above the target was a folder already. -/
theorem folder_above (h : d.FileMoved d' source target) {q r : Place} (hr : r ≠ [])
    (hq : target = q ++ r) : d.get? q = some .folder := by
  obtain ⟨bytes, hb⟩ := h.isFile
  have htarget : d'.get? (q ++ r) = some (.file bytes) := by
    rw [← hq, h.view target, if_pos rfl, hb]
  have habove := h.isTree.folder_of_append htarget hr
  have hne : q ≠ target := by
    rw [hq]
    simpa using hr.symm
  rw [h.view q, if_neg hne] at habove
  split at habove
  · cases habove
  · exact habove

end FileMoved

/-- Some files are carried from places to others that were free, and folders are made at allowed
places, also where a file was carried away. -/
structure Carries (moves : List (Place × Place)) (allowed : Place → Prop) (d d' : Disk) :
    Prop where
  sources : (moves.map Prod.fst).Nodup
  targets : (moves.map Prod.snd).Nodup
  isFile : ∀ m ∈ moves, d.IsFile m.1
  free : ∀ m ∈ moves, d.get? m.2 = none
  atTarget : ∀ m ∈ moves, d'.get? m.2 = d.get? m.1
  atSource : ∀ m ∈ moves, d'.get? m.1 = none ∨ (d'.get? m.1 = some .folder ∧ allowed m.1)
  elsewhere : ∀ p, (∀ m ∈ moves, p ≠ m.1 ∧ p ≠ m.2) →
    d'.get? p = d.get? p ∨ (d.get? p = none ∧ d'.get? p = some .folder ∧ allowed p)
  isTree : d'.IsTree
  longestPath_eq : d'.longestPath = d.longestPath

namespace Carries

variable {moves : List (Place × Place)} {allowed : Place → Prop} {d d' d'' : Disk}

/-- No file is where one was carried away. -/
theorem not_isFile_source (h : Carries moves allowed d d') {m : Place × Place}
    (hm : m ∈ moves) : ¬ d'.IsFile m.1 := by
  rcases h.atSource m hm with hn | ⟨hf, -⟩
  · exact not_isFile_of_none hn
  · exact not_isFile_of_folder hf

theorem isFile_target (h : Carries moves allowed d d') {m : Place × Place} (hm : m ∈ moves) :
    d'.IsFile m.2 := by
  obtain ⟨bytes, hb⟩ := h.isFile m hm
  exact ⟨bytes, by rw [h.atTarget m hm, hb]⟩

theorem get?_of_some (h : Carries moves allowed d d') {p : Place} {e : Entry}
    (he : d.get? p = some e) (hp : ∀ m ∈ moves, p ≠ m.1) : d'.get? p = some e := by
  have hp' : ∀ m ∈ moves, p ≠ m.1 ∧ p ≠ m.2 := by
    refine fun m hm => ⟨hp m hm, ?_⟩
    rintro rfl
    rw [h.free m hm] at he
    cases he
  rcases h.elsewhere p hp' with hs | ⟨hn, -, -⟩
  · rw [hs, he]
  · rw [hn] at he
    cases he

theorem folder (h : Carries moves allowed d d') {p : Place} (hp : d.get? p = some .folder) :
    d'.get? p = some .folder := by
  refine h.get?_of_some hp fun m hm => ?_
  rintro rfl
  exact not_isFile_of_folder hp (h.isFile m hm)

/-- A file is either one that stayed or one that was carried there. -/
theorem isFile_cases (h : Carries moves allowed d d') {p : Place} (hp : d'.IsFile p) :
    (d.IsFile p ∧ ∀ m ∈ moves, p ≠ m.1) ∨ ∃ m ∈ moves, p = m.2 := by
  by_cases ht : ∃ m ∈ moves, p = m.2
  · exact Or.inr ht
  · have hs : ∀ m ∈ moves, p ≠ m.1 := by
      rintro m hm rfl
      exact h.not_isFile_source hm hp
    have hst : ∀ m ∈ moves, p ≠ m.1 ∧ p ≠ m.2 :=
      fun m hm => ⟨hs m hm, fun he => ht ⟨m, hm, he⟩⟩
    rcases h.elsewhere p hst with heq | ⟨-, hf, -⟩
    · obtain ⟨bytes, hb⟩ := hp
      exact Or.inl ⟨⟨bytes, heq ▸ hb⟩, hs⟩
    · exact absurd hp (not_isFile_of_folder hf)

/-- A folder is either one that was there or one that was made. -/
theorem folder_cases (h : Carries moves allowed d d') {p : Place}
    (hp : d'.get? p = some .folder) : d.get? p = some .folder ∨ allowed p := by
  by_cases hs : ∃ m ∈ moves, p = m.1
  · obtain ⟨m, hm, rfl⟩ := hs
    rcases h.atSource m hm with hn | ⟨-, ha⟩
    · rw [hp] at hn
      cases hn
    · exact Or.inr ha
  · by_cases ht : ∃ m ∈ moves, p = m.2
    · obtain ⟨m, hm, rfl⟩ := ht
      exact absurd (h.isFile_target hm) (not_isFile_of_folder hp)
    · rcases h.elsewhere p fun m hm => ⟨fun he => hs ⟨m, hm, he⟩, fun he => ht ⟨m, hm, he⟩⟩ with
        heq | ⟨-, -, ha⟩
      · exact Or.inl (heq ▸ hp)
      · exact Or.inr ha

/-! ## One after the other -/

theorem mono {allowed' : Place → Prop} (h : Carries moves allowed d d')
    (ha : ∀ p, allowed p → allowed' p) : Carries moves allowed' d d' :=
  { h with
    atSource := fun m hm => (h.atSource m hm).imp id fun ⟨hf, hok⟩ => ⟨hf, ha _ hok⟩
    elsewhere := fun p hp => (h.elsewhere p hp).imp id fun ⟨hn, hf, hok⟩ => ⟨hn, hf, ha _ hok⟩ }

theorem of_grows (ht : d.IsTree) (hg : d.Grows allowed d') : Carries [] allowed d d' where
  sources := List.nodup_nil
  targets := List.nodup_nil
  isFile := by simp
  free := by simp
  atTarget := by simp
  atSource := by simp
  elsewhere p _ := hg.get?_cases p
  isTree := hg.isTree ht
  longestPath_eq := hg.longestPath_eq

theorem of_fileMoved {s t : Place} (hm : d.FileMoved d' s t) (allowed : Place → Prop) :
    Carries [(s, t)] allowed d d' where
  sources := List.nodup_singleton s
  targets := List.nodup_singleton t
  isFile := by simpa using hm.isFile
  free := by simpa using hm.free
  atTarget := by simpa using hm.view t
  atSource := by
    have hst : s ≠ t := by
      rintro rfl
      exact not_isFile_of_none hm.free hm.isFile
    simpa [hst] using Or.inl (hm.view s)
  elsewhere p hp := by
    obtain ⟨hps, hpt⟩ := hp (s, t) (by simp)
    rw [hm.view p, if_neg hpt, if_neg hps]
    exact Or.inl rfl
  isTree := hm.isTree
  longestPath_eq := hm.longestPath_eq

section Trans

variable {moves' : List (Place × Place)} (h : Carries moves allowed d d')
  (h' : Carries moves' allowed d' d'') (hs : ∀ m ∈ moves', d.IsFile m.1)
  (ht : ∀ m ∈ moves', d.get? m.2 = none)

include h h' hs ht

/-- The places of a file that is carried later are not those of the files before. -/
theorem apart : ∀ m ∈ moves, ∀ m' ∈ moves',
    m'.1 ≠ m.1 ∧ m'.1 ≠ m.2 ∧ m'.2 ≠ m.1 ∧ m'.2 ≠ m.2 := by
  intro m hm m' hm'
  refine ⟨?_, ?_, ?_, ?_⟩ <;> intro heq
  · exact h.not_isFile_source hm (heq ▸ h'.isFile m' hm')
  · exact not_isFile_of_none (h.free m hm) (heq ▸ hs m' hm')
  · exact not_isFile_of_none (ht m' hm') (heq ▸ h.isFile m hm)
  · exact not_isFile_of_none (h'.free m' hm') (heq ▸ h.isFile_target hm)

/-- Files that were there from the beginning are carried one after the other, to places that were
free from the beginning. -/
theorem trans : Carries (moves ++ moves') allowed d d'' := by
  have hapart := apart h h' hs ht
  -- where the first files came to, and where the later ones were, nothing else changes
  have hfirst : ∀ m ∈ moves, d''.get? m.2 = d'.get? m.2 := by
    intro m hm
    obtain ⟨bytes, hb⟩ := h.isFile_target hm
    rw [hb]
    exact h'.get?_of_some hb fun m' hm' => (hapart m hm m' hm').2.1.symm
  have hlater : ∀ m ∈ moves', d'.get? m.1 = d.get? m.1 := by
    intro m' hm'
    obtain ⟨bytes, hb⟩ := hs m' hm'
    rw [hb]
    exact h.get?_of_some hb fun m hm => (hapart m hm m' hm').1
  have hnodup : ∀ f : Place × Place → Place, (∀ m ∈ moves, ∀ m' ∈ moves', f m' ≠ f m) →
      (moves.map f).Nodup → (moves'.map f).Nodup → ((moves ++ moves').map f).Nodup := by
    intro f hne hn hn'
    rw [List.map_append]
    refine hn.append hn' fun p hp hp' => ?_
    obtain ⟨m, hm, rfl⟩ := List.mem_map.1 hp
    obtain ⟨m', hm', heq⟩ := List.mem_map.1 hp'
    exact hne m hm m' hm' heq
  constructor
  · exact hnodup Prod.fst (fun m hm m' hm' => (hapart m hm m' hm').1) h.sources h'.sources
  · exact hnodup Prod.snd (fun m hm m' hm' => (hapart m hm m' hm').2.2.2) h.targets h'.targets
  · exact List.forall_mem_append.2 ⟨h.isFile, hs⟩
  · exact List.forall_mem_append.2 ⟨h.free, ht⟩
  · refine List.forall_mem_append.2 ⟨fun m hm => ?_, fun m hm => ?_⟩
    · rw [hfirst m hm, h.atTarget m hm]
    · rw [h'.atTarget m hm, hlater m hm]
  · refine List.forall_mem_append.2 ⟨fun m hm => ?_, h'.atSource⟩
    have hother : ∀ m' ∈ moves', m.1 ≠ m'.1 ∧ m.1 ≠ m'.2 :=
      fun m' hm' => ⟨(hapart m hm m' hm').1.symm, (hapart m hm m' hm').2.2.1.symm⟩
    rcases h'.elsewhere m.1 hother with heq | ⟨-, hf, ha⟩
    · rw [heq]
      exact h.atSource m hm
    · exact Or.inr ⟨hf, ha⟩
  · intro p hp
    obtain ⟨hp₁, hp₂⟩ := List.forall_mem_append.1 hp
    rcases h.elsewhere p hp₁ with heq | ⟨hn, hf, ha⟩
    · rw [← heq]
      exact h'.elsewhere p hp₂
    · exact Or.inr ⟨hn, h'.folder hf, ha⟩
  · exact h'.isTree
  · exact h'.longestPath_eq.trans h.longestPath_eq

end Trans

/-- Folders come later. -/
theorem grows (h : Carries moves allowed d d') (hg : d'.Grows allowed d'') :
    Carries moves allowed d d'' := by
  have hall := h.trans (of_grows h.isTree hg) (by simp) (by simp)
  rwa [List.append_nil] at hall

/-- One more file is carried, which was there from the beginning, to a place that was free from
the beginning. -/
theorem fileMoved (h : Carries moves allowed d d') {s t : Place} (hm : d'.FileMoved d'' s t)
    (hs : d.IsFile s) (ht : d.get? t = none) : Carries (moves ++ [(s, t)]) allowed d d'' :=
  h.trans (of_fileMoved hm allowed) (by simpa using hs) (by simpa using ht)

/-! ## The same files and folders -/

/-- Where the same files were carried and the same folders are there, the disks have the same
view. -/
theorem get?_eq {moves' : List (Place × Place)} {allowed' : Place → Prop}
    (h : Carries moves allowed d d') (h' : Carries moves' allowed' d d'')
    (hmoves : ∀ m, m ∈ moves ↔ m ∈ moves')
    (hfolders : ∀ p, d'.get? p = some .folder ↔ d''.get? p = some .folder) (p : Place) :
    d'.get? p = d''.get? p := by
  -- a place where there is nothing or a folder is one on both disks
  have hsame : (d'.get? p = none ∨ d'.get? p = some .folder) →
      (d''.get? p = none ∨ d''.get? p = some .folder) → d'.get? p = d''.get? p := by
    rintro (hn | hf) (hn' | hf')
    · rw [hn, hn']
    · rw [hf', (hfolders p).2 hf']
    · rw [hf, (hfolders p).1 hf]
    · rw [hf, hf']
  by_cases ht : ∃ m ∈ moves, p = m.2
  · obtain ⟨m, hm, rfl⟩ := ht
    rw [h.atTarget m hm, h'.atTarget m ((hmoves m).1 hm)]
  by_cases hs : ∃ m ∈ moves, p = m.1
  · obtain ⟨m, hm, rfl⟩ := hs
    exact hsame ((h.atSource m hm).imp id And.left)
      ((h'.atSource m ((hmoves m).1 hm)).imp id And.left)
  · have hp : ∀ m ∈ moves, p ≠ m.1 ∧ p ≠ m.2 :=
      fun m hm => ⟨fun he => hs ⟨m, hm, he⟩, fun he => ht ⟨m, hm, he⟩⟩
    rcases h.elsewhere p hp with heq | ⟨hn, hf, -⟩ <;>
      rcases h'.elsewhere p (fun m hm => hp m ((hmoves m).2 hm)) with heq' | ⟨hn', hf', -⟩
    · rw [heq, heq']
    · rw [hf', (hfolders p).2 hf']
    · rw [hf, (hfolders p).1 hf]
    · rw [hf, hf']

end Carries

/-! ## Where the moves take a place -/

/-- Where the moves take a place: a source goes to its target, and every other place stays. -/
def carry (moves : List (Place × Place)) (p : Place) : Place :=
  match moves.find? fun m => m.1 = p with
  | some m => m.2
  | none => p

theorem carry_of_not_mem {moves : List (Place × Place)} {p : Place}
    (hp : ∀ m ∈ moves, m.1 ≠ p) : carry moves p = p := by
  have hfind : (moves.find? fun m => m.1 = p) = none := by
    rw [List.find?_eq_none]
    intro m hm
    simpa using hp m hm
  rw [carry, hfind]

theorem carry_of_mem {moves : List (Place × Place)} (hn : (moves.map Prod.fst).Nodup)
    {m : Place × Place} (hm : m ∈ moves) : carry moves m.1 = m.2 := by
  rw [carry]
  rcases hfind : moves.find? fun m' => m'.1 = m.1 with _ | m'
  · rw [List.find?_eq_none] at hfind
    exact absurd (decide_eq_true rfl) (hfind m hm)
  · have hm' := List.mem_of_find?_eq_some hfind
    have he : m'.1 = m.1 := by simpa using List.find?_some hfind
    rw [hfind]
    exact congrArg Prod.snd (List.inj_on_of_nodup_map hn hm' hm he)

namespace Carries

variable {moves : List (Place × Place)} {allowed : Place → Prop} {d d' : Disk}

/-- What was at a place is where the moves take it. -/
theorem get?_carry (h : Carries moves allowed d d') {p : Place} (hp : d.IsFile p) :
    d'.get? (carry moves p) = d.get? p := by
  by_cases hs : ∃ m ∈ moves, m.1 = p
  · obtain ⟨m, hm, rfl⟩ := hs
    rw [carry_of_mem h.sources hm, h.atTarget m hm]
  · have hs' : ∀ m ∈ moves, m.1 ≠ p := fun m hm he => hs ⟨m, hm, he⟩
    obtain ⟨bytes, hb⟩ := hp
    rw [carry_of_not_mem hs', hb]
    exact h.get?_of_some hb fun m hm => (hs' m hm).symm

theorem mapsTo_carry (h : Carries moves allowed d d') :
    Set.MapsTo (carry moves) {p | d.IsFile p} {p | d'.IsFile p} := by
  intro p hp
  obtain ⟨bytes, hb⟩ := hp
  exact ⟨bytes, by rw [h.get?_carry ⟨bytes, hb⟩, hb]⟩

theorem injOn_carry (h : Carries moves allowed d d') :
    Set.InjOn (carry moves) {p | d.IsFile p} := by
  intro p hp q hq heq
  -- a file that stays is not where another one is carried to
  have hcross : ∀ {p q : Place}, d.IsFile p → (∀ m ∈ moves, m.1 ≠ p) → ∀ m ∈ moves,
      m.1 = q → carry moves p ≠ carry moves q := by
    rintro p q hp hs m hm rfl he
    rw [carry_of_not_mem hs, carry_of_mem h.sources hm] at he
    exact not_isFile_of_none (h.free m hm) (he ▸ hp)
  by_cases hps : ∃ m ∈ moves, m.1 = p <;> by_cases hqs : ∃ m ∈ moves, m.1 = q
  · obtain ⟨m, hm, rfl⟩ := hps
    obtain ⟨m', hm', rfl⟩ := hqs
    rw [carry_of_mem h.sources hm, carry_of_mem h.sources hm'] at heq
    rw [List.inj_on_of_nodup_map h.targets hm hm' heq]
  · obtain ⟨m, hm, hmp⟩ := hps
    exact absurd heq.symm (hcross hq (fun m hm he => hqs ⟨m, hm, he⟩) m hm hmp)
  · obtain ⟨m, hm, hmq⟩ := hqs
    exact absurd heq (hcross hp (fun m hm he => hps ⟨m, hm, he⟩) m hm hmq)
  · rwa [carry_of_not_mem fun m hm he => hps ⟨m, hm, he⟩,
      carry_of_not_mem fun m hm he => hqs ⟨m, hm, he⟩] at heq

theorem surjOn_carry (h : Carries moves allowed d d') :
    Set.SurjOn (carry moves) {p | d.IsFile p} {p | d'.IsFile p} := by
  intro p hp
  rcases h.isFile_cases hp with ⟨hf, hs⟩ | ⟨m, hm, rfl⟩
  · exact ⟨p, hf, carry_of_not_mem fun m hm he => hs m hm he.symm⟩
  · exact ⟨m.1, h.isFile m hm, carry_of_mem h.sources hm⟩

/-- The moves take the files of the one disk to those of the other. -/
theorem bijOn_carry (h : Carries moves allowed d d') :
    Set.BijOn (carry moves) {p | d.IsFile p} {p | d'.IsFile p} :=
  ⟨h.mapsTo_carry, h.injOn_carry, h.surjOn_carry⟩

end Carries

end NoteArchive.Disk
