import NoteArchive.Archive.Folder
import NoteArchive.Proofs.Vault.Spot

/-!
# Making the folders of a vault

* `runIn_makeFolder_cases`: what making a folder comes to, whatever fails from outside.
* `Vault.Builds`: a disk gets folders on the way of some names.
* `within_ensureFolder`: a folder with those above it is made in this way, or as far as it goes.
* `of_ensureFolder`: when this ends well, all folders on the way are there.
* `runIn_ensureFolder_of_clear`: it ends well where nothing is in the way.
* `exists_of_ensureFolder`: what is there afterwards, also when it did not end well.
-/

namespace NoteArchive.Vault

open Act

variable {v : Vault}

/-! ## One folder -/

theorem runIn_isThere (v : Vault) (path : String) (w : World) :
    (v.isThere path).runIn w = (v.resolve path >>= fun s => s.isThere w.disk, w) := by
  rw [isThere, runIn_ofExcept_bind]
  cases v.resolve path <;> rfl

theorem Spot.change_eq_ok_iff {s : Spot} {d d' : Disk} {f : Place → Except SystemCause Disk} :
    s.change d f = .ok d' ↔ d.takesPath s.text = true ∧ f s.place = .ok d' := by
  rw [Spot.change]
  split
  · next h => simp [h]
  · next h => simp [h]

/-- Either a folder is made, or the disk stays as it is. -/
theorem runIn_makeFolder_cases {path : String} {w w' : World} {r : Except Failure Unit}
    (h : (v.makeFolder path).runIn w = (r, w')) :
    (w.Calm → w'.Calm) ∧
      ((r = .ok () ∧ ∃ s, v.resolve path = .ok s ∧ s.Accepted w.disk ∧
          w.disk.makeFolder s.place = .ok w'.disk) ∨
        ((∃ e, r = .error e) ∧ w'.disk = w.disk)) := by
  -- each check either ends the attempt on the same disk, or the disk makes the folder
  rw [makeFolder] at h
  rcases runIn_bind_cases h with ⟨_, w₁, hturn, h⟩ | ⟨e, hturn, he⟩
  · have hd : w₁.disk = w.disk := (within_interrupt sameDisk_isFrame _).of_runIn hturn
    have hc : w.Calm → w₁.Calm := (within_interrupt calm_isFrame _).of_runIn hturn
    rw [runIn_ofExcept_bind] at h
    rcases hs : v.resolve path with e | s
    · rw [hs] at h
      cases h
      exact ⟨hc, Or.inr ⟨⟨_, rfl⟩, hd⟩⟩
    · rw [hs] at h
      dsimp only at h
      rw [runIn_ite] at h
      split at h
      · rw [runIn_throw_bind] at h
        cases h
        exact ⟨hc, Or.inr ⟨⟨_, rfl⟩, hd⟩⟩
      · next hnull =>
        rw [runIn_get_bind, hd] at h
        split at h
        · next disk hchange =>
          cases h
          obtain ⟨htakes, hmake⟩ := Spot.change_eq_ok_iff.1 hchange
          exact ⟨hc, Or.inl ⟨rfl, s, rfl, ⟨by simpa using hnull, htakes⟩, hmake⟩⟩
        all_goals
          cases h
          exact ⟨hc, Or.inr ⟨⟨_, rfl⟩, hd⟩⟩
  · exact ⟨(within_interrupt calm_isFrame _).of_runIn hturn,
      Or.inr ⟨⟨e, he⟩, (within_interrupt sameDisk_isFrame _).of_runIn hturn⟩⟩

/-- Where nothing fails from outside a folder is made, if the disk takes it. -/
theorem runIn_makeFolder_of_calm {path : String} {w : World} (hw : w.Calm) {s : Spot}
    (hs : v.resolve path = .ok s) (hacc : s.Accepted w.disk) {d : Disk}
    (hd : w.disk.makeFolder s.place = .ok d) :
    (v.makeFolder path).runIn w =
      (.ok (), World.heard { w with disk := d }
        [.record ⟨"vault", .debug, "フォルダを作成: " ++ path⟩]) := by
  rw [makeFolder, runIn_bind_of_ok (runIn_interrupt_of_calm hw _), runIn_ofExcept_bind, hs]
  dsimp only
  rw [runIn_ite, if_neg (by simp [hacc.no_null]), runIn_get_bind,
    Spot.change_eq_ok_iff.2 ⟨hacc.takes, hd⟩]
  rfl

/-- What holds of making a folder on the disk, and of what leaves the disk alone, holds of the
operation. -/
theorem within_makeFolder {R : World → World → Prop} (hR : IsFrame R) {path : String}
    (hmake : ∀ {w w' : World} {s : Spot}, v.resolve path = .ok s → s.Accepted w.disk →
      w.disk.makeFolder s.place = .ok w'.disk → (w.Calm → w'.Calm) → R w w') :
    Within R (v.makeFolder path) := by
  intro w
  rcases hrun : (v.makeFolder path).runIn w with ⟨r, w'⟩
  obtain ⟨hcalm, hcases⟩ := runIn_makeFolder_cases hrun
  rcases hcases with ⟨-, s, hs, hacc, hd⟩ | ⟨-, hd⟩
  · exact hmake hs hacc hd hcalm
  · exact hR.still hd hcalm

theorem within_isThere {R : World → World → Prop} (hR : IsFrame R) (path : String) :
    Within R (v.isThere path) := by
  intro w
  rw [runIn_isThere]
  exact hR.still rfl id

/-! ## The folders on the way of some names -/

/-- The places that some names lead to one after the other, as far as the system takes their
paths. -/
def OnWay (v : Vault) (d : Disk) (parts : List String) (p : Place) : Prop :=
  ∃ names, names ≠ [] ∧ names <+: parts ∧ p = v.place ++ names ∧ (v.spot names).Accepted d

/-- A disk gets folders on the way of some names. -/
def Builds (v : Vault) (parts : List String) (d d' : Disk) : Prop :=
  d.IsTree → d.Grows (v.OnWay d parts) d'

theorem OnWay.of_longestPath_eq {d d' : Disk} {parts : List String} {p : Place}
    (h : v.OnWay d parts p) (hd : d'.longestPath = d.longestPath) : v.OnWay d' parts p := by
  obtain ⟨names, hn, hp, rfl, hacc⟩ := h
  exact ⟨names, hn, hp, rfl, hacc.of_longestPath_eq hd⟩

theorem builds_isFrame (v : Vault) (parts : List String) :
    IsFrame (diskFrame (v.Builds parts)) := by
  refine diskFrame_isFrame (fun d _ => .refl) fun {d₁ d₂ d₃} h h' ht => ?_
  have hg := h ht
  refine hg.trans ((h' (hg.isTree ht)).mono fun p hp => ?_)
  exact hp.of_longestPath_eq hg.longestPath_eq.symm

/-- A folder that is made at the end of some names is one on their way. -/
theorem grows_of_makeFolder {d d' : Disk} (ht : d.IsTree) {names parts : List String}
    (hn : names ≠ []) (hp : names <+: parts) (hparts : ∀ name ∈ parts, Path.IsPart name)
    (hup : ".." ∉ names) (hacc : (v.spot names).Accepted d)
    (hd : d.makeFolder (v.place ++ names) = .ok d') : d.Grows (v.OnWay d parts) d' := by
  obtain ⟨q, name, hq, hs, hfolder, hnone, rfl⟩ := ht.of_makeFolder hd
  obtain ⟨front, last, rfl⟩ := (List.eq_nil_or_concat' names).resolve_left hn
  rw [← List.append_assoc] at hq
  obtain ⟨rfl, hlast⟩ := List.append_inj' hq rfl
  obtain rfl : last = name := List.singleton_inj.1 hlast
  have hlast : last ∈ front ++ [last] := by simp
  have hname : IsName last := isName_of_accepted hacc hup hlast (hparts last (hp.subset hlast)) hs
  rw [← List.append_assoc] at hnone ⊢
  exact .step .refl ⟨_, hn, hp, by rw [List.append_assoc], hacc⟩ hname hfolder hnone

/-- The folders on the way of `rest` below `done` are made in a chain of steps. -/
theorem within_ensureSteps (done : List String) {rest : List String}
    (hparts : ∀ name ∈ done ++ rest, Path.IsPart name) :
    Within (diskFrame (v.Builds (done ++ rest)))
      (v.ensureSteps ((Path.stepsFrom done rest).map fun names => (Path.mk "" names).text)) := by
  have hR := builds_isFrame v (done ++ rest)
  -- each name of `rest` passes to `done` once its folder was seen to
  induction rest generalizing done with
  | nil => exact within_pure hR ()
  | cons name rest ih =>
    rw [List.append_cons] at hparts hR ⊢
    specialize ih (done ++ [name]) hparts hR
    have hstep : Within (diskFrame (v.Builds ((done ++ [name]) ++ rest)))
        (v.makeFolder (Path.mk "" (done ++ [name])).text) := by
      refine within_makeFolder hR fun {w w' s} hs hacc hd _ ht => ?_
      have hfront : ∀ n ∈ done ++ [name], Path.IsPart n :=
        fun n hn => hparts n (List.mem_append_left _ hn)
      obtain ⟨hinside, rfl⟩ := resolve_eq_ok_iff.1 hs
      rw [Path.isVaultRelative_iff] at hinside
      rw [Path.ofString_text hfront] at hinside hacc hd
      exact grows_of_makeFolder ht (by simp) (List.prefix_append _ _) hparts hinside.2 hacc hd
    rw [Path.stepsFrom, List.map_cons, ensureSteps]
    refine (within_isThere hR _).bind hR fun there => ?_
    split
    · exact ih
    · exact hstep.bind hR fun _ => (within_tell hR _).bind hR fun _ => ih

theorem steps_of_relative {folder : String} (h : (Path.ofString folder).mark = "") :
    (Path.ofString folder).steps =
      (Path.stepsFrom [] (Path.ofString folder).parts).map
        fun names => (Path.mk "" names).text := by
  rw [Path.steps, if_pos h, List.nil_append, h]

/-- The first step of an absolute path is refused. -/
theorem runIn_ensureFolder_of_absolute {folder : String} (h : (Path.ofString folder).mark ≠ "")
    (w : World) :
    (v.ensureFolder folder).runIn w =
      (.error (.file (.outsideVault (Path.ofString folder).mark)), w) := by
  have hmark : isVaultRelative (Path.ofString folder).mark = false := by
    -- only a root mark makes a path absolute, and the root is outside the vault
    rw [Path.ofString_mark] at h ⊢
    rcases Path.markOf_cases folder.toList with hm | hm | hm
    · exact absurd hm h
    · rw [hm]
      decide +kernel
    · rw [hm]
      decide +kernel
  have hthere : (v.isThere (Path.ofString folder).mark).runIn w =
      (.error (.file (.outsideVault (Path.ofString folder).mark)), w) := by
    rw [runIn_isThere, resolve, hmark]
    rfl
  rw [ensureFolder, Path.steps, if_neg h, List.singleton_append, ensureSteps,
    runIn_bind_of_error hthere]

/-- Where making a folder changed something, its path is relative. -/
theorem mark_of_made {folder : String} {w w' : World} {r : Except Failure Unit}
    (h : (v.ensureFolder folder).runIn w = (r, w')) {p : Place} {e : Entry}
    (hnone : w.disk.get? p = none) (he : w'.disk.get? p = some e) :
    (Path.ofString folder).mark = "" := by
  by_contra hm
  rw [runIn_ensureFolder_of_absolute hm] at h
  cases h
  rw [hnone] at he
  cases he

/-- Making a folder adds folders on the way of its names, whatever comes of it. -/
theorem within_ensureFolder (v : Vault) (folder : String) :
    Within (diskFrame (v.Builds (Path.ofString folder).parts)) (v.ensureFolder folder) := by
  have hR := builds_isFrame v (Path.ofString folder).parts
  by_cases hm : (Path.ofString folder).mark = ""
  · rw [ensureFolder, steps_of_relative hm]
    exact within_ensureSteps [] fun name => Path.isPart_of_mem_parts
  · intro w
    rw [runIn_ensureFolder_of_absolute hm]
    exact hR.still rfl id

theorem within_ensureSteps_calm (v : Vault) (steps : List String) :
    Within (fun w w' => w.Calm → w'.Calm) (v.ensureSteps steps) := by
  have hR := calm_isFrame
  induction steps with
  | nil => exact within_pure hR ()
  | cons step rest ih =>
    rw [ensureSteps]
    refine (within_isThere hR _).bind hR fun there => ?_
    split
    · exact ih
    · exact (within_makeFolder hR fun _ _ _ hc => hc).bind hR fun _ =>
        (within_tell hR _).bind hR fun _ => ih

theorem within_ensureFolder_calm (v : Vault) (folder : String) :
    Within (fun w w' => w.Calm → w'.Calm) (v.ensureFolder folder) :=
  within_ensureSteps_calm v _

/-! ## When it ends well -/

theorem runIn_isThere_text {names : List String} (hparts : ∀ name ∈ names, Path.IsPart name)
    (hup : ".." ∉ names) (w : World) :
    (v.isThere (Path.mk "" names).text).runIn w = ((v.spot names).isThere w.disk, w) := by
  rw [runIn_isThere, resolve_text hparts hup]
  rfl

/-- After a folder that was there or could be made, the others follow. -/
theorem of_ensureSteps_cons {names : List String} (hn : names ≠ [])
    (hparts : ∀ name ∈ names, Path.IsPart name) {rest : List String} {w w' : World}
    (ht : w.disk.IsTree)
    (h : (v.ensureSteps ((Path.mk "" names).text :: rest)).runIn w = (.ok (), w')) :
    ".." ∉ names ∧ (v.spot names).Accepted w.disk ∧ ∃ w₁,
      w.disk.Grows (v.OnWay w.disk names) w₁.disk ∧
      (∃ e, w₁.disk.get? (v.place ++ names) = some e) ∧
      (v.ensureSteps rest).runIn w₁ = (.ok (), w') := by
  rw [ensureSteps] at h
  obtain ⟨there, w₁, hthere, h⟩ := runIn_bind_ok h
  have hup : ".." ∉ names := by
    rcases hs : v.resolve (Path.mk "" names).text with e | s
    · rw [runIn_isThere, hs] at hthere
      cases hthere
    · have := (Path.isVaultRelative_iff.1 (resolve_eq_ok_iff.1 hs).1).2
      rwa [Path.ofString_text hparts] at this
  rw [runIn_isThere_text hparts hup] at hthere
  obtain ⟨hq, rfl⟩ := Prod.mk.inj hthere
  cases there with
  | true =>
    obtain ⟨hacc, he⟩ := (Spot.isThere_eq_true_iff ht).1 hq
    exact ⟨hup, hacc, w, .refl, he, h⟩
  | false =>
    obtain ⟨_, w₂, hmake, h⟩ := runIn_bind_ok h
    rw [runIn_tell_bind] at h
    rcases (runIn_makeFolder_cases hmake).2 with ⟨-, s, hs, hacc, hd⟩ | ⟨⟨e, he⟩, -⟩
    · rw [resolve_text hparts hup] at hs
      cases hs
      have hgrows := grows_of_makeFolder ht hn (List.prefix_refl _) hparts hup hacc hd
      obtain ⟨q, name, hq, -, -, hnone, hins⟩ := ht.of_makeFolder hd
      have hself : w₂.disk.get? (v.place ++ names) = some .folder := by
        rw [hins]
        exact Disk.get?_insert_self (by simp [spot, hn]) hnone _
      refine ⟨hup, hacc, _, ?_, ?_, h⟩
      · exact hgrows
      · exact ⟨_, hself⟩
    · cases he

/-- When the folders on the way of `rest` could be made, something is at every place on the way,
and the system takes all their paths. -/
theorem of_ensureSteps (done : List String) {rest : List String}
    (hparts : ∀ name ∈ done ++ rest, Path.IsPart name) {w w' : World} (ht : w.disk.IsTree)
    (h : (v.ensureSteps
      ((Path.stepsFrom done rest).map fun names => (Path.mk "" names).text)).runIn w =
        (.ok (), w')) :
    ∀ more, more <+: rest → more ≠ [] →
      ".." ∉ done ++ more ∧ (v.spot (done ++ more)).Accepted w.disk ∧
        ∃ e, w'.disk.get? (v.place ++ (done ++ more)) = some e := by
  induction rest generalizing done w with
  | nil =>
    intro more hmore hne
    exact absurd (List.prefix_nil.1 hmore) hne
  | cons name rest ih =>
    rw [List.append_cons] at hparts
    rw [Path.stepsFrom, List.map_cons] at h
    obtain ⟨hup, hacc, w₁, hgrows, ⟨e, he⟩, h⟩ := of_ensureSteps_cons (by simp)
      (fun n hn => hparts n (List.mem_append_left _ hn)) ht h
    -- later steps only add folders, so what is there stays
    have hlater : w₁.disk.Grows (v.OnWay w₁.disk ((done ++ [name]) ++ rest)) w'.disk :=
      (within_ensureSteps _ hparts).of_runIn h (hgrows.isTree ht)
    intro more hmore hne
    obtain ⟨first, more, rfl⟩ := List.exists_cons_of_ne_nil hne
    obtain ⟨rfl, hrest⟩ := List.cons_prefix_cons.1 hmore
    by_cases hm : more = []
    · subst hm
      exact ⟨hup, hacc, e, hlater.get?_of_some he⟩
    · rw [List.append_cons]
      obtain ⟨hup, hacc, he⟩ := ih _ hparts (hgrows.isTree ht) h more hrest hm
      exact ⟨hup, hacc.of_longestPath_eq hgrows.longestPath_eq.symm, he⟩

/-- A folder in one that is there can be made where nothing fails from outside, or something has its
name already. -/
theorem runIn_ensureSteps_cons {done : List String} {name : String}
    (hparts : ∀ n ∈ done ++ [name], Path.IsPart n) (hup : ".." ∉ done ++ [name])
    (hshort : Disk.isTooLong name = false) {w : World} (hw : w.Calm) (ht : w.disk.IsTree)
    (hacc : (v.spot (done ++ [name])).Accepted w.disk)
    (hfolder : w.disk.get? (v.place ++ done) = some .folder) :
    ∃ w₁ : World, w₁.Calm ∧
      (w₁.disk.get? (v.place ++ (done ++ [name])) = some .folder ∧
          w.disk.get? (v.place ++ (done ++ [name])) = none ∧
          w₁.disk = w.disk.insert (v.place ++ (done ++ [name])) .folder ∧ w₁.disk.IsTree ∨
        w.disk.get? (v.place ++ (done ++ [name])) ≠ none ∧ w₁.disk = w.disk) ∧
      ∀ rest, (v.ensureSteps ((Path.mk "" (done ++ [name])).text :: rest)).runIn w =
        (v.ensureSteps rest).runIn w₁ := by
  have hplace : v.place ++ (done ++ [name]) = v.place ++ done ++ [name] :=
    (List.append_assoc _ _ _).symm
  have hthere := runIn_isThere_text (v := v) hparts hup w
  -- a missing folder is made, and everything else is taken for a folder
  rcases hn : w.disk.get? (v.place ++ (done ++ [name])) with _ | e
  · have hname : IsName name :=
      isName_of_accepted hacc hup (by simp) (hparts name (by simp)) hshort
    have hmade : w.disk.makeFolder (v.place ++ (done ++ [name])) =
        .ok (w.disk.insert (v.place ++ (done ++ [name])) .folder) := by
      rw [hplace] at hn ⊢
      exact ht.makeFolder_eq_ok hfolder hshort hn
    have htree : (w.disk.insert (v.place ++ (done ++ [name])) .folder).IsTree := by
      rw [hplace] at hn ⊢
      exact ht.insert hname hfolder hn .folder
    obtain ⟨w₁, hw₁, hd, hmake⟩ : ∃ w₁ : World, w₁.Calm ∧
        w₁.disk = w.disk.insert (v.place ++ (done ++ [name])) .folder ∧
        (v.makeFolder (Path.mk "" (done ++ [name])).text).runIn w = (.ok (), w₁) := by
      refine ⟨_, ?_, ?_, runIn_makeFolder_of_calm hw (resolve_text hparts hup) hacc hmade⟩
      · exact hw
      · rfl
    rw [Spot.isThere_eq_false ht hacc hplace hfolder hshort hn] at hthere
    have hself : w₁.disk.get? (v.place ++ (done ++ [name])) = some .folder := by
      rw [hd]
      exact Disk.get?_insert_self (by simp) hn .folder
    refine ⟨w₁.heard [.record ⟨"archiver", .info,
      "フォルダを作成: " ++ (Path.mk "" (done ++ [name])).text⟩], hw₁.heard _,
      Or.inl ⟨hself, rfl, hd, hd ▸ htree⟩, fun rest => ?_⟩
    rw [ensureSteps, runIn_bind_of_ok hthere]
    simp only [Bool.false_eq_true, if_false]
    rw [runIn_bind_of_ok hmake, runIn_tell_bind]
  · rw [(Spot.isThere_eq_true_iff ht).2 ⟨hacc, e, hn⟩] at hthere
    refine ⟨w, hw, Or.inr ⟨by simp, rfl⟩, fun rest => ?_⟩
    rw [ensureSteps, runIn_bind_of_ok hthere]
    rfl

/-- The folders on the way of `rest` can be made where nothing fails from outside and nothing is in
the way. -/
theorem runIn_ensureSteps_of_clear (done : List String) {rest : List String}
    (hparts : ∀ name ∈ done ++ rest, Path.IsPart name) (hup : ".." ∉ done ++ rest)
    (hshort : ∀ name ∈ rest, Disk.isTooLong name = false) {w : World} (hw : w.Calm)
    (ht : w.disk.IsTree) (hacc : rest ≠ [] → (v.spot (done ++ rest)).Accepted w.disk)
    (hfolder : rest ≠ [] → w.disk.get? (v.place ++ done) = some .folder)
    (hclear : ∀ more, more <+: rest → more ≠ rest →
      ¬ w.disk.IsFile (v.place ++ done ++ more)) :
    ∃ w', (v.ensureSteps
      ((Path.stepsFrom done rest).map fun names => (Path.mk "" names).text)).runIn w =
        (.ok (), w') := by
  induction rest generalizing done w with
  | nil => exact ⟨w, rfl⟩
  | cons name rest ih =>
    have hacc := hacc (by simp)
    rw [List.append_cons] at hparts hup hacc
    obtain ⟨w₁, hw₁, hmade, hrun⟩ := runIn_ensureSteps_cons
      (fun n hn => hparts n (List.mem_append_left _ hn)) (fun hm => hup (List.mem_append_left _ hm))
      (hshort name List.mem_cons_self) hw ht (accepted_of_append (by simp) hacc)
      (hfolder (by simp))
    rw [Path.stepsFrom, List.map_cons, hrun]
    have hshort' : ∀ n ∈ rest, Disk.isTooLong n = false :=
      fun n hn => hshort n (List.mem_cons_of_mem _ hn)
    rcases hmade with ⟨hself, hn, hd, ht₁⟩ | ⟨hn, hd⟩
    · -- under the new folder there is nothing
      have hbelow : ∀ more, more ≠ [] →
          w₁.disk.get? (v.place ++ (done ++ [name]) ++ more) = none := by
        intro more hm
        rw [hd, Disk.get?_insert_of_ne (by simp [hm])]
        exact ht.none_under_none hn more
      refine ih _ hparts hup hshort' hw₁ ht₁ (fun _ => hacc.of_longestPath_eq (by rw [hd]; rfl))
        (fun _ => hself) fun more _ _ => ?_
      by_cases hm : more = []
      · rw [hm, List.append_nil]
        exact Disk.not_isFile_of_folder hself
      · exact Disk.not_isFile_of_none (hbelow more hm)
    · -- what is there is a folder if there is more to make
      have hclear' : ∀ more, more <+: rest → more ≠ rest →
          ¬ w.disk.IsFile (v.place ++ (done ++ [name]) ++ more) := by
        intro more hmore hne
        have := hclear (name :: more) (List.cons_prefix_cons.2 ⟨rfl, hmore⟩) (by simpa using hne)
        rwa [List.append_cons, List.append_assoc v.place] at this
      rw [← hd] at ht hacc hclear' hn
      refine ih _ hparts hup hshort' hw₁ ht (fun _ => hacc) (fun hr => ?_) hclear'
      rcases w₁.disk.get?_cases (v.place ++ (done ++ [name])) with hnone | hf | hfile
      · exact absurd hnone hn
      · exact hf
      · have := hclear' [] List.nil_prefix (Ne.symm hr)
        rw [List.append_nil] at this
        exact absurd hfile this

/-! ## The folder with those above it -/

theorem stepsFrom_append (done names more : List String) :
    Path.stepsFrom done (names ++ more) =
      Path.stepsFrom done names ++ Path.stepsFrom (done ++ names) more := by
  induction names generalizing done with
  | nil => simp [Path.stepsFrom]
  | cons name rest ih =>
    rw [List.cons_append, Path.stepsFrom, Path.stepsFrom, ih]
    simp

theorem ensureSteps_append (v : Vault) (steps more : List String) :
    v.ensureSteps (steps ++ more) = v.ensureSteps steps >>= fun _ => v.ensureSteps more := by
  induction steps with
  | nil => rfl
  | cons step rest ih =>
    rw [List.cons_append, ensureSteps, ensureSteps, bind_assoc, ih]
    refine bind_congr fun there => ?_
    cases there <;> simp

/-- When a folder could be made, its path stays inside the vault, the system takes it, and something
is at every place on its way. -/
theorem of_ensureFolder {folder : String} {w w' : World} (ht : w.disk.IsTree)
    (h : (v.ensureFolder folder).runIn w = (.ok (), w')) :
    isVaultRelative folder = true ∧
      ∀ names, names <+: (Path.ofString folder).parts → names ≠ [] →
        (v.spot names).Accepted w.disk ∧ ∃ e, w'.disk.get? (v.place ++ names) = some e := by
  have hm : (Path.ofString folder).mark = "" := by
    by_contra hm
    rw [runIn_ensureFolder_of_absolute hm] at h
    cases h
  rw [ensureFolder, steps_of_relative hm] at h
  have hall := of_ensureSteps [] (fun name => Path.isPart_of_mem_parts) ht h
  refine ⟨Path.isVaultRelative_iff.2 ⟨hm, ?_⟩, fun names hp hn => (hall names hp hn).2⟩
  by_cases hp : (Path.ofString folder).parts = []
  · simp [hp]
  · exact (hall _ (List.prefix_refl _) hp).1

section Clear

variable {folder : String} {w : World}

/-- A folder can be made, with those above it, where nothing is in the way. -/
theorem runIn_ensureFolder_of_clear (hin : isVaultRelative folder = true)
    (hshort : ∀ name ∈ (Path.ofString folder).parts, Disk.isTooLong name = false) (hw : w.Calm)
    (ht : w.disk.IsTree) (hroot : w.disk.get? v.place = some .folder)
    (hacc : (Path.ofString folder).parts ≠ [] →
      (v.spot (Path.ofString folder).parts).Accepted w.disk)
    (hclear : ∀ more, more <+: (Path.ofString folder).parts →
      more ≠ (Path.ofString folder).parts → ¬ w.disk.IsFile (v.place ++ more)) :
    ∃ w', (v.ensureFolder folder).runIn w = (.ok (), w') := by
  obtain ⟨hm, hup⟩ := Path.isVaultRelative_iff.1 hin
  rw [ensureFolder, steps_of_relative hm]
  refine runIn_ensureSteps_of_clear [] (fun name => Path.isPart_of_mem_parts) hup hshort
    hw ht hacc (fun _ => ?_) fun more hp hne => ?_
  · rwa [List.append_nil]
  · rw [List.append_nil]
    exact hclear more hp hne

/-- What the system takes of the folders on the way of a folder, down to the first file, is there
afterwards, also when the folder itself could not be made. -/
theorem exists_of_ensureFolder (hm : (Path.ofString folder).mark = "") {names : List String}
    (hup : ".." ∉ names) (hshort : ∀ name ∈ names, Disk.isTooLong name = false) (hw : w.Calm)
    (ht : w.disk.IsTree) (hroot : w.disk.get? v.place = some .folder)
    (hp : names <+: (Path.ofString folder).parts) (hn : names ≠ [])
    (hacc : (v.spot names).Accepted w.disk)
    (hclear : ∀ more, more <+: names → more ≠ names → ¬ w.disk.IsFile (v.place ++ more))
    {r : Except Failure Unit} {w' : World} (h : (v.ensureFolder folder).runIn w = (r, w')) :
    ∃ e, w'.disk.get? (v.place ++ names) = some e := by
  obtain ⟨more, hmore⟩ := hp
  have hparts : ∀ name ∈ names ++ more, Path.IsPart name := by
    rw [hmore]
    exact fun name => Path.isPart_of_mem_parts
  have hparts' : ∀ name ∈ names, Path.IsPart name :=
    fun name hname => hparts name (List.mem_append_left _ hname)
  -- the folders down to `names` can be made, and those below only add to them
  obtain ⟨w₁, h₁⟩ := runIn_ensureSteps_of_clear [] hparts' hup hshort hw ht
    (fun _ => hacc) (fun _ => by rwa [List.append_nil]) fun more hp hne => by
      rw [List.append_nil]
      exact hclear more hp hne
  have hgrows : w.disk.Grows (v.OnWay w.disk names) w₁.disk :=
    (within_ensureSteps [] hparts').of_runIn h₁ ht
  obtain ⟨-, -, e, he⟩ := of_ensureSteps [] hparts' ht h₁ names
    (List.prefix_refl _) hn
  rw [ensureFolder, steps_of_relative hm, ← hmore, stepsFrom_append, List.map_append,
    ensureSteps_append, runIn_bind_of_ok h₁, List.nil_append] at h
  have hlater : w₁.disk.Grows (v.OnWay w₁.disk (names ++ more)) w'.disk :=
    (within_ensureSteps _ hparts).of_runIn h (hgrows.isTree ht)
  exact ⟨e, hlater.get?_of_some he⟩

end Clear

end NoteArchive.Vault
