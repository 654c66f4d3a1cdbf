import HashtagIndex.Proofs.Outcomes
import HashtagIndex.Text.Utf8

/-!
# `Proofs.Encoding` — encoding and decoding are inverse

The decoder is a machine over octets, so the statement is about its state: started between two
characters on the octets of a character, it is between two characters again behind them, having
produced that character (`decodeFrom_encodeChar`). The four cases are the four lengths of a
character; in the longer ones the narrower ranges of the second octet are where surrogates and
overlong forms are excluded.

For the same reason decoding loses nothing: octets that were read as a character are the only ones it
is encoded by (`exists_of_decodeFrom_cons`), so two files with one text have the same octets.
-/

namespace HashtagIndex

/-! ## Single steps of the decoder -/

theorem decodeFrom_ascii {place : Nat} {b : UInt8} {r : List UInt8} (h : b.toNat < 0x80) :
    decodeFrom place none (b :: r) =
      (Char.ofNat b.toNat :: ·) <$> decodeFrom (place + 1) none r := by
  rw [decodeFrom]
  exact if_pos h

theorem decodeFrom_lead {place : Nat} {b : UInt8} {r : List UInt8} {p : PartialChar}
    (h : ¬b.toNat < 0x80) (hp : PartialChar.ofLead? place b = some p) :
    decodeFrom place none (b :: r) = decodeFrom (place + 1) (some p) r := by
  rw [decodeFrom]
  simp only [if_neg h, hp]

theorem decodeFrom_last {place : Nat} {b : UInt8} {r : List UInt8} {p : PartialChar}
    (h : p.low ≤ b.toNat ∧ b.toNat ≤ p.high) (hdue : p.due = 1) :
    decodeFrom place (some p) (b :: r) =
      (Char.ofNat (p.bits * 64 + b.toNat % 64) :: ·) <$> decodeFrom (place + 1) none r := by
  rw [decodeFrom]
  simp only [if_pos h, if_pos hdue]

theorem decodeFrom_middle {place : Nat} {b : UInt8} {r : List UInt8} {p : PartialChar}
    (h : p.low ≤ b.toNat ∧ b.toNat ≤ p.high) (hdue : p.due ≠ 1) :
    decodeFrom place (some p) (b :: r) =
      decodeFrom (place + 1) (some { p with
        bits := p.bits * 64 + b.toNat % 64, due := p.due - 1, low := 0x80, high := 0xBF }) r := by
  rw [decodeFrom]
  simp only [if_pos h, if_neg hdue]

/-! ## Whole characters -/

theorem toNat_ofNat_of_lt {n : Nat} (h : n < 256) : (UInt8.ofNat n).toNat = n := by
  rw [UInt8.toNat_ofNat']
  omega

/-- **A character is read back** from its octets, whatever follows them. -/
theorem decodeFrom_encodeChar (place : Nat) (c : Char) (r : List UInt8) :
    ∃ place', decodeFrom place none (String.utf8EncodeChar c ++ r) =
      (c :: ·) <$> decodeFrom place' none r := by
  have hvalid : c.val.toNat < 0xD800 ∨ 0xDFFF < c.val.toNat ∧ c.val.toNat < 0x110000 := c.valid
  have hc : Char.ofNat c.val.toNat = c := Char.ofNat_toNat c
  rw [String.utf8EncodeChar]
  generalize c.val.toNat = v at hvalid hc
  split
  · -- one octet
    have hv : (UInt8.ofNat v).toNat = v := toNat_ofNat_of_lt (by omega)
    rw [List.cons_append, decodeFrom_ascii (by omega), hv, hc]
    exact ⟨_, rfl⟩
  split
  · -- two octets
    have h1 : (UInt8.ofNat (v / 64 % 32 + 192)).toNat = v / 64 % 32 + 192 :=
      toNat_ofNat_of_lt (by omega)
    have h2 : (UInt8.ofNat (v % 64 + 128)).toNat = v % 64 + 128 := toNat_ofNat_of_lt (by omega)
    have hlead : PartialChar.ofLead? place (UInt8.ofNat (v / 64 % 32 + 192)) =
        some ⟨place, UInt8.ofNat (v / 64 % 32 + 192), v / 64, 1, 0x80, 0xBF⟩ := by
      rw [PartialChar.ofLead?, h1, if_neg (by omega), if_pos (by omega),
        show (v / 64 % 32 + 192) % 32 = v / 64 by omega]
    rw [List.cons_append, List.cons_append, decodeFrom_lead (by omega) hlead,
      decodeFrom_last (by simp only; omega) rfl, h2,
      show v / 64 * 64 + (v % 64 + 128) % 64 = v by omega, hc]
    exact ⟨_, rfl⟩
  split
  · -- three octets
    have h1 : (UInt8.ofNat (v / 4096 % 16 + 224)).toNat = v / 4096 % 16 + 224 :=
      toNat_ofNat_of_lt (by omega)
    have h2 : (UInt8.ofNat (v / 64 % 64 + 128)).toNat = v / 64 % 64 + 128 :=
      toNat_ofNat_of_lt (by omega)
    have h3 : (UInt8.ofNat (v % 64 + 128)).toNat = v % 64 + 128 := toNat_ofNat_of_lt (by omega)
    have hlead : PartialChar.ofLead? place (UInt8.ofNat (v / 4096 % 16 + 224)) =
        some ⟨place, UInt8.ofNat (v / 4096 % 16 + 224), v / 4096, 2,
          if v / 4096 % 16 + 224 = 0xE0 then 0xA0 else 0x80,
          if v / 4096 % 16 + 224 = 0xED then 0x9F else 0xBF⟩ := by
      rw [PartialChar.ofLead?, h1, if_neg (by omega), if_neg (by omega), if_pos (by omega),
        show (v / 4096 % 16 + 224) % 16 = v / 4096 by omega]
    rw [List.cons_append, List.cons_append, List.cons_append, decodeFrom_lead (by omega) hlead,
      decodeFrom_middle (by simp only; split <;> split <;> omega) (by simp), h2,
      decodeFrom_last (by simp only; omega) rfl, h3,
      show (v / 4096 * 64 + (v / 64 % 64 + 128) % 64) * 64 + (v % 64 + 128) % 64 = v by omega, hc]
    exact ⟨_, rfl⟩
  · -- four octets
    have h1 : (UInt8.ofNat (v / 262144 % 8 + 240)).toNat = v / 262144 % 8 + 240 :=
      toNat_ofNat_of_lt (by omega)
    have h2 : (UInt8.ofNat (v / 4096 % 64 + 128)).toNat = v / 4096 % 64 + 128 :=
      toNat_ofNat_of_lt (by omega)
    have h3 : (UInt8.ofNat (v / 64 % 64 + 128)).toNat = v / 64 % 64 + 128 :=
      toNat_ofNat_of_lt (by omega)
    have h4 : (UInt8.ofNat (v % 64 + 128)).toNat = v % 64 + 128 := toNat_ofNat_of_lt (by omega)
    have hlead : PartialChar.ofLead? place (UInt8.ofNat (v / 262144 % 8 + 240)) =
        some ⟨place, UInt8.ofNat (v / 262144 % 8 + 240), v / 262144, 3,
          if v / 262144 % 8 + 240 = 0xF0 then 0x90 else 0x80,
          if v / 262144 % 8 + 240 = 0xF4 then 0x8F else 0xBF⟩ := by
      rw [PartialChar.ofLead?, h1, if_neg (by omega), if_neg (by omega), if_neg (by omega),
        if_pos (by omega), show (v / 262144 % 8 + 240) % 8 = v / 262144 by omega]
    rw [List.cons_append, List.cons_append, List.cons_append, List.cons_append,
      decodeFrom_lead (by omega) hlead,
      decodeFrom_middle (by simp only; split <;> split <;> omega) (by simp), h2,
      decodeFrom_middle (by simp only; omega) (by simp), h3,
      decodeFrom_last (by simp only; omega) rfl, h4,
      show ((v / 262144 * 64 + (v / 4096 % 64 + 128) % 64) * 64 + (v / 64 % 64 + 128) % 64) * 64 +
        (v % 64 + 128) % 64 = v by omega, hc]
    exact ⟨_, rfl⟩

theorem decodeFrom_encodeUtf8 (place : Nat) (t : Text) :
    decodeFrom place none (encodeUtf8 t) = .ok t := by
  induction t generalizing place with
  | nil => rfl
  | cons c t ih =>
    obtain ⟨place', h⟩ := decodeFrom_encodeChar place c (encodeUtf8 t)
    rw [encodeUtf8, List.flatMap_cons, ← encodeUtf8, h, ih]
    rfl

/-- **Decoding reads back what encoding wrote.** -/
theorem decodeUtf8_encodeUtf8 (t : Text) : decodeUtf8 (encodeUtf8 t) = .ok t :=
  decodeFrom_encodeUtf8 0 t

/-! ## Decoding loses nothing -/

/-- Inside a character an octet follows that is in range, and it ends the character or continues it. -/
theorem exists_of_decodeFrom_held {place : Nat} {p : PartialChar} {r : List UInt8} {t : Text}
    (h : decodeFrom place (some p) r = .ok t) :
    ∃ b r', r = b :: r' ∧ (p.low ≤ b.toNat ∧ b.toNat ≤ p.high) ∧
      if p.due = 1 then
        ∃ t', t = Char.ofNat (p.bits * 64 + b.toNat % 64) :: t' ∧
          decodeFrom (place + 1) none r' = .ok t'
      else
        decodeFrom (place + 1) (some { p with
          bits := p.bits * 64 + b.toNat % 64, due := p.due - 1, low := 0x80, high := 0xBF }) r' =
            .ok t := by
  cases r with
  | nil => cases h
  | cons b r =>
    by_cases hrange : p.low ≤ b.toNat ∧ b.toNat ≤ p.high
    · refine ⟨b, r, rfl, hrange, ?_⟩
      split
      · next hdue =>
        rw [decodeFrom_last hrange hdue, map_eq_ok] at h
        obtain ⟨t', ht', rfl⟩ := h
        exact ⟨t', rfl, ht'⟩
      · next hdue => rwa [decodeFrom_middle hrange hdue] at h
    · rw [decodeFrom] at h
      simp only [if_neg hrange] at h
      cases h

/-- The code point of a character that was made from one. -/
theorem toNat_val_ofNat {v : Nat} (h : v < 0xD800 ∨ 0xDFFF < v ∧ v < 0x110000) :
    (Char.ofNat v).val.toNat = v := by
  have hvalid : v.isValidChar := h
  rw [Char.ofNat, dif_pos hvalid]
  rfl

theorem ofNat_eq_of_toNat {b : UInt8} {n : Nat} (h : b.toNat = n) : UInt8.ofNat n = b := by
  rw [← h]
  exact UInt8.ofNat_toNat

/-- What the lead octet of a character says: how much of the code point it holds, how many octets
    follow, and where the next one lies. -/
theorem ofLead?_eq_some {place : Nat} {b : UInt8} {p : PartialChar}
    (h : PartialChar.ofLead? place b = some p) :
    (0xC2 ≤ b.toNat ∧ b.toNat < 0xE0 ∧ p = ⟨place, b, b.toNat % 32, 1, 0x80, 0xBF⟩) ∨
      (0xE0 ≤ b.toNat ∧ b.toNat < 0xF0 ∧ p = ⟨place, b, b.toNat % 16, 2,
        if b.toNat = 0xE0 then 0xA0 else 0x80, if b.toNat = 0xED then 0x9F else 0xBF⟩) ∨
      (0xF0 ≤ b.toNat ∧ b.toNat < 0xF5 ∧ p = ⟨place, b, b.toNat % 8, 3,
        if b.toNat = 0xF0 then 0x90 else 0x80, if b.toNat = 0xF4 then 0x8F else 0xBF⟩) := by
  unfold PartialChar.ofLead? at h
  simp only at h
  split at h
  · cases h
  split at h
  · next hlow hhigh => exact Or.inl ⟨by omega, hhigh, (Option.some.inj h).symm⟩
  split at h
  · next hlow hhigh => exact Or.inr (Or.inl ⟨by omega, hhigh, (Option.some.inj h).symm⟩)
  split at h
  · next hlow hhigh => exact Or.inr (Or.inr ⟨by omega, hhigh, (Option.some.inj h).symm⟩)
  · cases h

/-- **The octets of a character** that was read are those it is encoded by. -/
theorem exists_of_decodeFrom_cons {place : Nat} {b : UInt8} {r : List UInt8} {t : Text}
    (h : decodeFrom place none (b :: r) = .ok t) :
    ∃ c t' r' place', t = c :: t' ∧ b :: r = String.utf8EncodeChar c ++ r' ∧
      decodeFrom place' none r' = .ok t' := by
  by_cases hascii : b.toNat < 0x80
  · rw [decodeFrom_ascii hascii, map_eq_ok] at h
    obtain ⟨t', ht', rfl⟩ := h
    refine ⟨_, t', r, _, rfl, ?_, ht'⟩
    rw [String.utf8EncodeChar, toNat_val_ofNat (by omega), if_pos (by omega), ofNat_eq_of_toNat rfl]
    rfl
  cases hlead : PartialChar.ofLead? place b with
  | none =>
    rw [decodeFrom] at h
    simp only [if_neg hascii, hlead] at h
    cases h
  | some p =>
    rw [decodeFrom_lead hascii hlead] at h
    obtain ⟨hlow, hhigh, rfl⟩ | ⟨hlow, hhigh, rfl⟩ | ⟨hlow, hhigh, rfl⟩ := ofLead?_eq_some hlead
    · -- two octets
      obtain ⟨b₂, r, rfl, ⟨h₂, h₂'⟩, hrest⟩ := exists_of_decodeFrom_held h
      simp only [if_pos] at h₂ h₂' hrest
      obtain ⟨t', rfl, ht'⟩ := hrest
      refine ⟨_, t', r, _, rfl, ?_, ht'⟩
      rw [String.utf8EncodeChar, toNat_val_ofNat (by omega), if_neg (by omega), if_pos (by omega),
        ofNat_eq_of_toNat (b := b) (by omega), ofNat_eq_of_toNat (b := b₂) (by omega)]
      rfl
    · -- three octets
      obtain ⟨b₂, r, rfl, ⟨h₂, h₂'⟩, hrest⟩ := exists_of_decodeFrom_held h
      simp only at h₂ h₂' hrest
      rw [if_neg (by decide)] at hrest
      obtain ⟨b₃, r, rfl, ⟨h₃, h₃'⟩, hrest⟩ := exists_of_decodeFrom_held hrest
      simp only at h₃ h₃' hrest
      rw [if_pos (by decide)] at hrest
      obtain ⟨t', rfl, ht'⟩ := hrest
      refine ⟨_, t', r, _, rfl, ?_, ht'⟩
      have hnarrow : (b.toNat = 0xE0 → 0xA0 ≤ b₂.toNat) ∧ (b.toNat = 0xED → b₂.toNat ≤ 0x9F) ∧
          0x80 ≤ b₂.toNat ∧ b₂.toNat ≤ 0xBF := by
        split at h₂ <;> split at h₂' <;> omega
      rw [String.utf8EncodeChar, toNat_val_ofNat (by omega), if_neg (by omega), if_neg (by omega),
        if_pos (by omega), ofNat_eq_of_toNat (b := b) (by omega),
        ofNat_eq_of_toNat (b := b₂) (by omega), ofNat_eq_of_toNat (b := b₃) (by omega)]
      rfl
    · -- four octets
      obtain ⟨b₂, r, rfl, ⟨h₂, h₂'⟩, hrest⟩ := exists_of_decodeFrom_held h
      simp only at h₂ h₂' hrest
      rw [if_neg (by decide)] at hrest
      obtain ⟨b₃, r, rfl, ⟨h₃, h₃'⟩, hrest⟩ := exists_of_decodeFrom_held hrest
      simp only at h₃ h₃' hrest
      rw [if_neg (by decide)] at hrest
      obtain ⟨b₄, r, rfl, ⟨h₄, h₄'⟩, hrest⟩ := exists_of_decodeFrom_held hrest
      simp only at h₄ h₄' hrest
      rw [if_pos (by decide)] at hrest
      obtain ⟨t', rfl, ht'⟩ := hrest
      refine ⟨_, t', r, _, rfl, ?_, ht'⟩
      have hnarrow : (b.toNat = 0xF0 → 0x90 ≤ b₂.toNat) ∧ (b.toNat = 0xF4 → b₂.toNat ≤ 0x8F) ∧
          0x80 ≤ b₂.toNat ∧ b₂.toNat ≤ 0xBF := by
        split at h₂ <;> split at h₂' <;> omega
      rw [String.utf8EncodeChar, toNat_val_ofNat (by omega), if_neg (by omega), if_neg (by omega),
        if_neg (by omega), ofNat_eq_of_toNat (b := b) (by omega),
        ofNat_eq_of_toNat (b := b₂) (by omega), ofNat_eq_of_toNat (b := b₃) (by omega),
        ofNat_eq_of_toNat (b := b₄) (by omega)]
      rfl

theorem encodeUtf8_decodeFrom {place : Nat} {bytes : List UInt8} {t : Text}
    (h : decodeFrom place none bytes = .ok t) : encodeUtf8 t = bytes := by
  induction hn : bytes.length using Nat.strongRecOn generalizing place bytes t with
  | _ n ih =>
    subst hn
    cases bytes with
    | nil =>
      obtain rfl := Except.ok.inj h
      rfl
    | cons b r =>
      obtain ⟨c, t', r', place', rfl, hbytes, hrest⟩ := exists_of_decodeFrom_cons h
      have hshort : r'.length < (b :: r).length := by
        rw [hbytes, List.length_append]
        have : 0 < (String.utf8EncodeChar c).length := by
          rw [String.length_utf8EncodeChar]
          exact c.utf8Size_pos
        omega
      rw [hbytes, encodeUtf8, List.flatMap_cons, ← encodeUtf8, ih _ hshort hrest rfl]

/-- **Encoding writes back what decoding read.** -/
theorem encodeUtf8_of_decodeUtf8 {bytes : List UInt8} {t : Text} (h : decodeUtf8 bytes = .ok t) :
    encodeUtf8 t = bytes :=
  encodeUtf8_decodeFrom h

end HashtagIndex
