import HashtagIndex.Text.Basic

/-!
# `HashtagIndex.Text.Utf8` — strict decoding with the place of the first bad spot

A decoder reads one octet at a time. Between characters it holds nothing; inside a character it
holds where the character began, the bits collected so far, how many octets are still due, and the
range the next octet must lie in. That range is narrower than usual right after the lead octets
`E0`, `ED`, `F0` and `F4`, which rules out overlong forms, surrogates and code points beyond
`10FFFF`.

A fault names the octets it covers: from the lead octet up to the last octet that was still good.
Lossy decoding puts one replacement character in their place and goes on behind them.
-/

namespace HashtagIndex

/-- Why octets are not text. -/
inductive Utf8Cause where
  | invalidStart
  | invalidContinuation
  | unexpectedEnd
deriving Repr, DecidableEq

/-- The first spot at which octets stop being text. -/
structure Utf8Fault where
  cause : Utf8Cause
  first : Nat
  last : Nat
  /-- The octet at `first`. -/
  octet : UInt8
deriving Repr, DecidableEq

/-- A character of which some octets are still due. -/
structure PartialChar where
  start : Nat
  lead : UInt8
  bits : Nat
  due : Nat
  low : Nat
  high : Nat
deriving Repr, DecidableEq

/-- What a lead octet at `start` promises; `none` when no character starts with it. -/
def PartialChar.ofLead? (start : Nat) (b : UInt8) : Option PartialChar :=
  let n := b.toNat
  if n < 0xC2 then none
  else if n < 0xE0 then some ⟨start, b, n % 32, 1, 0x80, 0xBF⟩
  else if n < 0xF0 then
    some ⟨start, b, n % 16, 2, if n = 0xE0 then 0xA0 else 0x80, if n = 0xED then 0x9F else 0xBF⟩
  else if n < 0xF5 then
    some ⟨start, b, n % 8, 3, if n = 0xF0 then 0x90 else 0x80, if n = 0xF4 then 0x8F else 0xBF⟩
  else none

/-- Decode octets, the first of which stands at `place`, inside or outside a character. -/
def decodeFrom (place : Nat) (held : Option PartialChar) : List UInt8 → Except Utf8Fault Text
  | [] =>
    match held with
    | none => .ok []
    | some p => .error ⟨.unexpectedEnd, p.start, place - 1, p.lead⟩
  | b :: r =>
    match held with
    | none =>
      if b.toNat < 0x80 then (Char.ofNat b.toNat :: ·) <$> decodeFrom (place + 1) none r
      else
        match PartialChar.ofLead? place b with
        | none => .error ⟨.invalidStart, place, place, b⟩
        | some p => decodeFrom (place + 1) (some p) r
    | some p =>
      if p.low ≤ b.toNat ∧ b.toNat ≤ p.high then
        let bits := p.bits * 64 + b.toNat % 64
        if p.due = 1 then (Char.ofNat bits :: ·) <$> decodeFrom (place + 1) none r
        else
          decodeFrom (place + 1)
            (some { p with bits := bits, due := p.due - 1, low := 0x80, high := 0xBF }) r
      else .error ⟨.invalidContinuation, p.start, place - 1, p.lead⟩

/-- The text that octets encode. -/
def decodeUtf8 (bytes : List UInt8) : Except Utf8Fault Text := decodeFrom 0 none bytes

/-- The text that octets encode, with a replacement character for each spot that is not text. -/
def decodeLossy : List UInt8 → Text
  | [] => []
  | b :: r =>
    match decodeUtf8 (b :: r) with
    | .ok t => t
    | .error f =>
      (decodeUtf8 ((b :: r).take f.first)).toOption.getD [] ++
        '\ufffd' :: decodeLossy (r.drop f.last)
termination_by bytes => bytes.length
decreasing_by simp only [List.length_drop, List.length_cons]; omega

/-- Octets that are text lose nothing. -/
theorem decodeLossy_of_decodeUtf8 {bytes : List UInt8} {t : Text} (h : decodeUtf8 bytes = .ok t) :
    decodeLossy bytes = t := by
  cases bytes with
  | nil =>
    rw [decodeUtf8, decodeFrom] at h
    rw [decodeLossy]
    exact Except.ok.inj h
  | cons b r => rw [decodeLossy, h]

/-- The octets of a text. -/
def encodeUtf8 (t : Text) : List UInt8 := t.flatMap String.utf8EncodeChar

/-- The wording of a cause. -/
def Utf8Cause.message : Utf8Cause → String
  | .invalidStart => "invalid start byte"
  | .invalidContinuation => "invalid continuation byte"
  | .unexpectedEnd => "unexpected end of data"

/-- An octet in two hexadecimal digits. -/
def octetDigits (b : UInt8) : Text :=
  [Nat.digitChar (b.toNat / 16), Nat.digitChar (b.toNat % 16)]

/-- The wording of a fault: one octet is shown, several are only counted. -/
def Utf8Fault.message (f : Utf8Fault) : String :=
  let spot :=
    if f.first = f.last then s!"byte 0x{(octetDigits f.octet).toString} in position {f.first}"
    else s!"bytes in position {f.first}-{f.last}"
  s!"'utf-8' codec can't decode {spot}: {f.cause.message}"

example : decodeUtf8 [0x61, 0xE2, 0x82, 0xAC] = .ok ['a', '€'] := by rfl
example : decodeUtf8 [0x61, 0xE2, 0x82] = .error ⟨.unexpectedEnd, 1, 2, 0xE2⟩ := by rfl
example : decodeLossy [0x61, 0xE2, 0x82, 0x62, 0xFF] = ['a', '\ufffd', 'b', '\ufffd'] := by
  decide +kernel
example : decodeUtf8 [0xE0, 0x80] = .error ⟨.invalidContinuation, 0, 0, 0xE0⟩ := by rfl

end HashtagIndex
