import NoteArchive.Text.Utf8

/-!
# Reading UTF-8 back

* `encodeChar_one` and its like: the bytes of a character, by their number.
* `decodeFrom_lead`, `decodeFrom_next`, `decodeFrom_last`: one byte of a longer character.
* `decodeFrom_encodeChar`: the bytes of a character are read as this character.
* `decode_encode`: so the bytes of a text are read as this text.
* `Pending.Spells`: what is known of a pending character; each byte keeps it (`start_cases`,
  `encode_of_decodeFrom`).
* `decode_eq_ok_iff`: so nothing but the bytes of a text is read as this text.
-/

namespace NoteArchive.Text.Utf8

theorem toNat_ofNat {n : Nat} (h : n < 256) : (UInt8.ofNat n).toNat = n :=
  UInt8.toNat_ofNat_of_lt' h

theorem toNat_cases (c : Char) : c.toNat < 0xd800 ∨ (0xdfff < c.toNat ∧ c.toNat < 0x110000) :=
  c.valid

/-! ## The bytes of a character -/

theorem toNat_val_ofNat {v : Nat} (h : v < 0xd800 ∨ (0xdfff < v ∧ v < 0x110000)) :
    (Char.ofNat v).val.toNat = v := by
  rw [Char.ofNat, dif_pos h]
  rfl

section Bytes

variable {v : Nat}

theorem encodeChar_one (h : v ≤ 0x7f) : String.utf8EncodeChar (Char.ofNat v) = [UInt8.ofNat v] := by
  unfold String.utf8EncodeChar
  rw [toNat_val_ofNat (by omega)]
  exact if_pos h

theorem encodeChar_two (h : 0x7f < v) (h' : v ≤ 0x7ff) :
    String.utf8EncodeChar (Char.ofNat v) =
      [UInt8.ofNat (v / 64 % 0x20 + 0xc0), UInt8.ofNat (v % 0x40 + 0x80)] := by
  unfold String.utf8EncodeChar
  rw [toNat_val_ofNat (by omega)]
  dsimp only
  rw [if_neg (by omega), if_pos h']

theorem encodeChar_three (h : 0x7ff < v) (h' : v ≤ 0xffff) (hc : v < 0xd800 ∨ 0xdfff < v) :
    String.utf8EncodeChar (Char.ofNat v) =
      [UInt8.ofNat (v / 4096 % 0x10 + 0xe0), UInt8.ofNat (v / 64 % 0x40 + 0x80),
        UInt8.ofNat (v % 0x40 + 0x80)] := by
  unfold String.utf8EncodeChar
  rw [toNat_val_ofNat (by omega)]
  dsimp only
  rw [if_neg (by omega), if_neg (by omega), if_pos h']

theorem encodeChar_four (h : 0xffff < v) (h' : v < 0x110000) :
    String.utf8EncodeChar (Char.ofNat v) =
      [UInt8.ofNat (v / 262144 % 0x08 + 0xf0), UInt8.ofNat (v / 4096 % 0x40 + 0x80),
        UInt8.ofNat (v / 64 % 0x40 + 0x80), UInt8.ofNat (v % 0x40 + 0x80)] := by
  unfold String.utf8EncodeChar
  rw [toNat_val_ofNat (by omega)]
  dsimp only
  rw [if_neg (by omega), if_neg (by omega), if_neg (by omega)]

end Bytes

theorem encode_cons (c : Char) (s : List Char) :
    encode (c :: s) = String.utf8EncodeChar c ++ encode s := rfl

/-! ## One byte -/

theorem decodeFrom_lead {b : UInt8} {p : Pending} (h : start b = .lead p) (pos : Nat)
    (r : List UInt8) :
    decodeFrom pos none (b :: r) = decodeFrom (pos + 1) (some p) r := by
  rw [decodeFrom, h]

theorem decodeFrom_next {b : UInt8} {p : Pending} (h : p.accepts b = true)
    (hm : p.missing ≠ 1) (pos : Nat) (r : List UInt8) :
    decodeFrom pos (some p) (b :: r) = decodeFrom (pos + 1) (some (p.push b)) r := by
  rw [decodeFrom, if_pos h, if_neg hm]

theorem decodeFrom_last {b : UInt8} {p : Pending} (h : p.accepts b = true)
    (hm : p.missing = 1) (pos : Nat) (r : List UInt8) :
    decodeFrom pos (some p) (b :: r) =
      (decodeFrom (pos + 1) none r).map (Char.ofNat (p.push b).value :: ·) := by
  rw [decodeFrom, if_pos h, if_pos hm]

theorem Pending.accepts_iff {p : Pending} {b : UInt8} :
    p.accepts b = true ↔ p.low ≤ b.toNat ∧ b.toNat ≤ p.high := by
  rw [accepts, Bool.and_eq_true, decide_eq_true_iff, decide_eq_true_iff]

theorem accepts_ofNat {p : Pending} {n : Nat} (h : n < 256) (hlow : p.low ≤ n)
    (hhigh : n ≤ p.high) : p.accepts (UInt8.ofNat n) = true := by
  rw [Pending.accepts_iff, toNat_ofNat h]
  exact ⟨hlow, hhigh⟩

/-! ## One character -/

section Characters

variable {v : Nat} (pos : Nat) (r : List UInt8)

theorem decodeFrom_one (h : v ≤ 0x7f) :
    decodeFrom pos none (UInt8.ofNat v :: r) =
      (decodeFrom (pos + 1) none r).map (Char.ofNat v :: ·) := by
  have hstart : start (UInt8.ofNat v) = .whole (Char.ofNat v) := by
    rw [start, toNat_ofNat (by omega)]
    exact if_pos (by omega)
  rw [decodeFrom, hstart]

theorem decodeFrom_two (h : 0x7f < v) (h' : v ≤ 0x7ff) :
    decodeFrom pos none
        (UInt8.ofNat (v / 64 % 0x20 + 0xc0) :: UInt8.ofNat (v % 0x40 + 0x80) :: r) =
      (decodeFrom (pos + 2) none r).map (Char.ofNat v :: ·) := by
  have hstart : start (UInt8.ofNat (v / 64 % 0x20 + 0xc0)) =
      .lead ⟨1, 0x80, 0xbf, v / 64, [UInt8.ofNat (v / 64 % 0x20 + 0xc0)]⟩ := by
    rw [start, toNat_ofNat (by omega)]
    have hvalue : v / 64 % 0x20 + 0xc0 - 0xc0 = v / 64 := by omega
    rw [if_neg (by omega), if_neg (by omega), if_pos (by omega), hvalue]
  have hvalue : 64 * (v / 64) + (v % 0x40 + 0x80 - 0x80) = v := by omega
  rw [decodeFrom_lead hstart,
    decodeFrom_last (accepts_ofNat (by omega) (by simp) (by dsimp only; omega)) rfl,
    Pending.push, toNat_ofNat (by omega), hvalue]

/-- After the first byte, the byte that follows has a range of its own, which leaves out what is
written shorter and the surrogates. -/
theorem decodeFrom_three (h : 0x7ff < v) (h' : v ≤ 0xffff) (hc : v < 0xd800 ∨ 0xdfff < v) :
    decodeFrom pos none
        (UInt8.ofNat (v / 4096 % 0x10 + 0xe0) :: UInt8.ofNat (v / 64 % 0x40 + 0x80) ::
          UInt8.ofNat (v % 0x40 + 0x80) :: r) =
      (decodeFrom (pos + 3) none r).map (Char.ofNat v :: ·) := by
  have hstart : start (UInt8.ofNat (v / 4096 % 0x10 + 0xe0)) =
      .lead ⟨2, if v / 4096 = 0 then 0xa0 else 0x80, if v / 4096 = 13 then 0x9f else 0xbf,
        v / 4096, [UInt8.ofNat (v / 4096 % 0x10 + 0xe0)]⟩ := by
    rw [start, toNat_ofNat (by omega)]
    have hvalue : v / 4096 % 0x10 + 0xe0 - 0xe0 = v / 4096 := by omega
    have hzero : v / 4096 % 0x10 + 0xe0 = 0xe0 ↔ v / 4096 = 0 := by omega
    have hhigh : v / 4096 % 0x10 + 0xe0 = 0xed ↔ v / 4096 = 13 := by omega
    rw [if_neg (by omega), if_neg (by omega), if_neg (by omega), if_pos (by omega), hvalue]
    simp only [hzero, hhigh]
  -- the ranges of the second byte leave out short forms and surrogates, which `v` is not
  have hlow : (if v / 4096 = 0 then 0xa0 else 0x80) ≤ v / 64 % 0x40 + 0x80 := by
    split <;> omega
  have hhigh : v / 64 % 0x40 + 0x80 ≤ if v / 4096 = 13 then 0x9f else 0xbf := by
    split <;> omega
  have hvalue : 64 * (64 * (v / 4096) + (v / 64 % 0x40 + 0x80 - 0x80)) +
      (v % 0x40 + 0x80 - 0x80) = v := by omega
  rw [decodeFrom_lead hstart, decodeFrom_next (accepts_ofNat (by omega) hlow hhigh) (by simp),
    Pending.push, toNat_ofNat (by omega),
    decodeFrom_last (accepts_ofNat (by omega) (by simp) (by dsimp only; omega)) rfl,
    Pending.push, toNat_ofNat (by omega), hvalue]

theorem decodeFrom_four (h : 0xffff < v) (h' : v < 0x110000) :
    decodeFrom pos none
        (UInt8.ofNat (v / 262144 % 0x08 + 0xf0) :: UInt8.ofNat (v / 4096 % 0x40 + 0x80) ::
          UInt8.ofNat (v / 64 % 0x40 + 0x80) :: UInt8.ofNat (v % 0x40 + 0x80) :: r) =
      (decodeFrom (pos + 4) none r).map (Char.ofNat v :: ·) := by
  have hstart : start (UInt8.ofNat (v / 262144 % 0x08 + 0xf0)) =
      .lead ⟨3, if v / 262144 = 0 then 0x90 else 0x80, if v / 262144 = 4 then 0x8f else 0xbf,
        v / 262144, [UInt8.ofNat (v / 262144 % 0x08 + 0xf0)]⟩ := by
    rw [start, toNat_ofNat (by omega)]
    have hvalue : v / 262144 % 0x08 + 0xf0 - 0xf0 = v / 262144 := by omega
    have hzero : v / 262144 % 0x08 + 0xf0 = 0xf0 ↔ v / 262144 = 0 := by omega
    have hhigh : v / 262144 % 0x08 + 0xf0 = 0xf4 ↔ v / 262144 = 4 := by omega
    rw [if_neg (by omega), if_neg (by omega), if_neg (by omega), if_neg (by omega),
      if_pos (by omega), hvalue]
    simp only [hzero, hhigh]
  -- the ranges of the second byte leave out short forms and what lies beyond the last character
  have hlow : (if v / 262144 = 0 then 0x90 else 0x80) ≤ v / 4096 % 0x40 + 0x80 := by
    split <;> omega
  have hhigh : v / 4096 % 0x40 + 0x80 ≤ if v / 262144 = 4 then 0x8f else 0xbf := by
    split <;> omega
  have hvalue : 64 * (64 * (64 * (v / 262144) + (v / 4096 % 0x40 + 0x80 - 0x80)) +
      (v / 64 % 0x40 + 0x80 - 0x80)) + (v % 0x40 + 0x80 - 0x80) = v := by omega
  rw [decodeFrom_lead hstart, decodeFrom_next (accepts_ofNat (by omega) hlow hhigh) (by simp),
    Pending.push, toNat_ofNat (by omega),
    decodeFrom_next (accepts_ofNat (by omega) (by simp) (by dsimp only; omega)) (by simp),
    Pending.push, toNat_ofNat (by omega),
    decodeFrom_last (accepts_ofNat (by omega) (by simp) (by dsimp only; omega)) rfl,
    Pending.push, toNat_ofNat (by omega), hvalue]

end Characters

/-- The bytes of a character are read as this character. -/
theorem decodeFrom_encodeChar (c : Char) (pos : Nat) (r : List UInt8) :
    decodeFrom pos none (String.utf8EncodeChar c ++ r) =
      (decodeFrom (pos + (String.utf8EncodeChar c).length) none r).map (c :: ·) := by
  obtain ⟨v, hvalid, rfl⟩ : ∃ v, (v < 0xd800 ∨ (0xdfff < v ∧ v < 0x110000)) ∧ Char.ofNat v = c :=
    ⟨c.toNat, toNat_cases c, Char.ofNat_toNat c⟩
  -- one case for each number of bytes
  by_cases h₁ : v ≤ 0x7f
  · rw [encodeChar_one h₁]
    exact decodeFrom_one pos r h₁
  by_cases h₂ : v ≤ 0x7ff
  · rw [encodeChar_two (by omega) h₂]
    exact decodeFrom_two pos r (by omega) h₂
  by_cases h₃ : v ≤ 0xffff
  · rw [encodeChar_three (by omega) h₃ (by omega)]
    exact decodeFrom_three pos r (by omega) h₃ (by omega)
  · rw [encodeChar_four (by omega) (by omega)]
    exact decodeFrom_four pos r (by omega) (by omega)

/-! ## A text -/

theorem decodeFrom_encode (s : List Char) (pos : Nat) : decodeFrom pos none (encode s) = .ok s := by
  induction s generalizing pos with
  | nil => rfl
  | cons c rest ih =>
    rw [encode_cons, decodeFrom_encodeChar, ih]
    rfl

/-- The bytes of a text are read as this text. -/
theorem decode_encode (s : List Char) : decode (encode s) = .ok s := decodeFrom_encode s 0

/-! ## Only the bytes of a text are read -/

/-- However a pending character is completed by `n` more bytes, it is written by all its bytes. -/
def Pending.Spells : Nat → Pending → Prop
  | 0, p => String.utf8EncodeChar (Char.ofNat p.value) = p.seen.reverse
  | n + 1, p => p.missing = n + 1 ∧ ∀ b, p.accepts b = true → Spells n (p.push b)

theorem ofNat_eq_of_toNat {n : Nat} {b : UInt8} (h : n = b.toNat) : UInt8.ofNat n = b := by
  rw [h, UInt8.ofNat_toNat]

section Start

variable {b : UInt8}

theorem spells_two (h : 0xc2 ≤ b.toNat) (h' : b.toNat < 0xe0) :
    Pending.Spells 1 ⟨1, 0x80, 0xbf, b.toNat - 0xc0, [b]⟩ := by
  refine ⟨rfl, fun b₂ h₂ => ?_⟩
  rw [Pending.accepts_iff] at h₂
  dsimp only at h₂
  rw [Pending.Spells, Pending.push]
  dsimp only
  rw [encodeChar_two (by omega) (by omega), ofNat_eq_of_toNat (b := b) (by omega),
    ofNat_eq_of_toNat (b := b₂) (by omega)]
  rfl

theorem spells_three (h : 0xe0 ≤ b.toNat) (h' : b.toNat < 0xf0) :
    Pending.Spells 2 ⟨2, if b.toNat = 0xe0 then 0xa0 else 0x80,
      if b.toNat = 0xed then 0x9f else 0xbf, b.toNat - 0xe0, [b]⟩ := by
  refine ⟨rfl, fun b₂ h₂ => ⟨rfl, fun b₃ h₃ => ?_⟩⟩
  rw [Pending.accepts_iff] at h₂ h₃
  simp only [Pending.push] at h₂ h₃
  -- the range of the second byte leaves out short forms and surrogates
  have hlow : 0x80 ≤ b₂.toNat ∧ (b.toNat = 0xe0 → 0xa0 ≤ b₂.toNat) := by
    split at h₂ <;> omega
  have hhigh : b₂.toNat ≤ 0xbf ∧ (b.toNat = 0xed → b₂.toNat ≤ 0x9f) := by
    split at h₂ <;> split at h₂ <;> omega
  clear h₂
  rw [Pending.Spells, Pending.push, Pending.push]
  dsimp only
  rw [encodeChar_three (by omega) (by omega) (by omega), ofNat_eq_of_toNat (b := b) (by omega),
    ofNat_eq_of_toNat (b := b₂) (by omega), ofNat_eq_of_toNat (b := b₃) (by omega)]
  rfl

theorem spells_four (h : 0xf0 ≤ b.toNat) (h' : b.toNat < 0xf5) :
    Pending.Spells 3 ⟨3, if b.toNat = 0xf0 then 0x90 else 0x80,
      if b.toNat = 0xf4 then 0x8f else 0xbf, b.toNat - 0xf0, [b]⟩ := by
  refine ⟨rfl, fun b₂ h₂ => ⟨rfl, fun b₃ h₃ => ⟨rfl, fun b₄ h₄ => ?_⟩⟩⟩
  rw [Pending.accepts_iff] at h₂ h₃ h₄
  simp only [Pending.push] at h₂ h₃ h₄
  -- the range of the second byte leaves out short forms and what lies beyond the last character
  have hlow : 0x80 ≤ b₂.toNat ∧ (b.toNat = 0xf0 → 0x90 ≤ b₂.toNat) := by
    split at h₂ <;> omega
  have hhigh : b₂.toNat ≤ 0xbf ∧ (b.toNat = 0xf4 → b₂.toNat ≤ 0x8f) := by
    split at h₂ <;> split at h₂ <;> omega
  clear h₂
  rw [Pending.Spells, Pending.push, Pending.push, Pending.push]
  dsimp only
  rw [encodeChar_four (by omega) (by omega), ofNat_eq_of_toNat (b := b) (by omega),
    ofNat_eq_of_toNat (b := b₂) (by omega), ofNat_eq_of_toNat (b := b₃) (by omega),
    ofNat_eq_of_toNat (b := b₄) (by omega)]
  rfl

/-- What a byte at the start of a character is. -/
theorem start_cases (b : UInt8) :
    (start b = .whole (Char.ofNat b.toNat) ∧ String.utf8EncodeChar (Char.ofNat b.toNat) = [b]) ∨
      (∃ p n, start b = .lead p ∧ p.seen = [b] ∧ Pending.Spells (n + 1) p) ∨ start b = .bad := by
  unfold start
  dsimp only
  split
  · refine Or.inl ⟨rfl, ?_⟩
    rw [encodeChar_one (by omega), UInt8.ofNat_toNat]
  split
  · exact Or.inr (Or.inr rfl)
  split
  · exact Or.inr (Or.inl ⟨_, _, rfl, rfl, spells_two (by omega) (by omega)⟩)
  split
  · exact Or.inr (Or.inl ⟨_, _, rfl, rfl, spells_three (by omega) (by omega)⟩)
  split
  · exact Or.inr (Or.inl ⟨_, _, rfl, rfl, spells_four (by omega) (by omega)⟩)
  · exact Or.inr (Or.inr rfl)

end Start

theorem exists_of_map_eq_ok {α β ε : Type} {r : Except ε α} {f : α → β} {b : β}
    (h : r.map f = .ok b) : ∃ a, r = .ok a ∧ f a = b := by
  cases r with
  | error e => cases h
  | ok a => exact ⟨a, rfl, Except.ok.inj h⟩

/-- What is read writes the bytes, those of the pending character included. -/
theorem encode_of_decodeFrom {bytes : List UInt8} {pos : Nat} {s : List Char} :
    (decodeFrom pos none bytes = .ok s → encode s = bytes) ∧
      ∀ p n, Pending.Spells (n + 1) p → decodeFrom pos (some p) bytes = .ok s →
        encode s = p.seen.reverse ++ bytes := by
  induction bytes generalizing pos s with
  | nil =>
    refine ⟨fun h => ?_, fun p n _ h => ?_⟩
    · cases h
      rfl
    · cases h
  | cons b r ih =>
    refine ⟨fun h => ?_, fun p n hp h => ?_⟩
    · rcases start_cases b with ⟨hstart, hb⟩ | ⟨p, n, hstart, hseen, hp⟩ | hstart
      · rw [decodeFrom, hstart] at h
        obtain ⟨s, hs, rfl⟩ := exists_of_map_eq_ok h
        rw [encode_cons, hb, ih.1 hs]
        rfl
      · rw [decodeFrom_lead hstart] at h
        rw [ih.2 p n hp h, hseen]
        rfl
      · rw [decodeFrom, hstart] at h
        cases h
    · obtain ⟨hmissing, hpush⟩ := hp
      by_cases ha : p.accepts b = true
      · have hnext := hpush b ha
        cases n with
        | zero =>
          rw [decodeFrom_last ha hmissing] at h
          obtain ⟨s, hs, rfl⟩ := exists_of_map_eq_ok h
          rw [encode_cons, hnext, ih.1 hs]
          simp [Pending.push]
        | succ n =>
          rw [decodeFrom_next ha (by omega)] at h
          rw [ih.2 _ n hnext h]
          simp [Pending.push]
      · rw [decodeFrom, if_neg ha] at h
        cases h

/-- Only the bytes of a text are read as this text. -/
theorem decode_eq_ok_iff {bytes : List UInt8} {s : List Char} :
    decode bytes = .ok s ↔ encode s = bytes :=
  ⟨encode_of_decodeFrom.1, fun h => h ▸ decode_encode s⟩

theorem encode_injective {s t : List Char} (h : encode s = encode t) : s = t := by
  have hdecode := decode_eq_ok_iff.2 h
  rw [decode_encode] at hdecode
  exact (Except.ok.inj hdecode).symm

end NoteArchive.Text.Utf8
