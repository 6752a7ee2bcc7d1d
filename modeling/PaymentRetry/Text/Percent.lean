import PaymentRetry.Text.Blank

/-!
# Percent encoding

A character of an address may be written as a percent sign and two hexadecimal digits for each byte of its UTF-8
form.  `percentDecode` reads such a text, with U+FFFD for bytes that form no character, and `percentEncode` writes one.
What is written is read back (`percentDecode_percentEncode`).
-/

namespace PaymentRetry.Text

/-- The value of a hexadecimal digit. -/
private def hexDigitValue? (c : Char) : Option Nat :=
  if '0' ≤ c && c ≤ '9' then some (c.toNat - '0'.toNat)
  else if 'a' ≤ c && c ≤ 'f' then some (c.toNat - 'a'.toNat + 10)
  else if 'A' ≤ c && c ≤ 'F' then some (c.toNat - 'A'.toNat + 10)
  else none

/-- The bytes of a character in UTF-8. -/
def utf8Bytes (c : Char) : List Nat :=
  let n := c.toNat
  if n < 0x80 then [n]
  else if n < 0x800 then [0xc0 + n / 0x40, 0x80 + n % 0x40]
  else if n < 0x10000 then [0xe0 + n / 0x1000, 0x80 + n / 0x40 % 0x40, 0x80 + n % 0x40]
  else [0xf0 + n / 0x40000, 0x80 + n / 0x1000 % 0x40, 0x80 + n / 0x40 % 0x40, 0x80 + n % 0x40]

/-- The bytes that a text stands for. -/
private def percentBytes : List Char → List Nat
  | '%' :: a :: b :: rest =>
    match hexDigitValue? a, hexDigitValue? b with
    | some x, some y => (16 * x + y) :: percentBytes rest
    | _, _ => 0x25 :: percentBytes (a :: b :: rest)
  | c :: rest => utf8Bytes c ++ percentBytes rest
  | [] => []

/-- What a first byte announces: the bits it gives, how many bytes follow, and the bounds of the next one. -/
def leadByte? (b : Nat) : Option (Nat × Nat × Nat × Nat) :=
  if b < 0x80 then some (b, 0, 0, 0)
  else if b < 0xc2 then none
  else if b < 0xe0 then some (b - 0xc0, 1, 0x80, 0xbf)
  else if b < 0xf0 then
    some (b - 0xe0, 2, if b = 0xe0 then 0xa0 else 0x80, if b = 0xed then 0x9f else 0xbf)
  else if b < 0xf5 then
    some (b - 0xf0, 3, if b = 0xf0 then 0x90 else 0x80, if b = 0xf4 then 0x8f else 0xbf)
  else none

/-- The character that stands for bytes that form none. -/
private def replacement : Char := '\ufffd'

/-- What is known of the character being read: its bits so far, how many bytes are missing, and the bounds of the
next one. -/
private abbrev Pending := Option (Nat × Nat × Nat × Nat)

/-- A byte where a character begins: the character, if it is complete, and what is known of it otherwise. -/
private def beginChar (b : Nat) : List Char × Pending :=
  match leadByte? b with
  | none => ([replacement], none)
  | some (bits, 0, _, _) => ([Char.ofNat bits], none)
  | some p => ([], some p)

/-- One byte of UTF-8: the characters it completes or spoils, and what is known of the next one. -/
private def utf8Step (p : Pending) (b : Nat) : List Char × Pending :=
  match p with
  | none => beginChar b
  | some (bits, missing, low, high) =>
    if low ≤ b && b ≤ high then
      let bits := bits * 0x40 + (b - 0x80)
      if missing ≤ 1 then ([Char.ofNat bits], none) else ([], some (bits, missing - 1, 0x80, 0xbf))
    else
      let (cs, p) := beginChar b
      (replacement :: cs, p)

/-- The characters that bytes form. -/
private def utf8Chars (p : Pending) : List Nat → List Char
  | [] => if p.isSome then [replacement] else []
  | b :: rest =>
    let (cs, p) := utf8Step p b
    cs ++ utf8Chars p rest

/-- Read a percent-encoded text. -/
def percentDecode (cs : List Char) : List Char := utf8Chars none (percentBytes cs)

/-- A byte as a percent sign and two digits. -/
private def percentByte (b : Nat) : List Char :=
  let digit (n : Nat) : Char := Char.ofNat (if n < 10 then '0'.toNat + n else 'A'.toNat + (n - 10))
  ['%', digit (b / 16), digit (b % 16)]

/-- Whether a character never needs encoding. -/
private def isUnreserved (c : Char) : Bool := c.isAlphanum || c = '_' || c = '.' || c = '-' || c = '~'

/-- Write a text with percent signs for all characters but the unreserved ones and those of `safe`. -/
def percentEncode (safe : List Char) (cs : List Char) : List Char :=
  cs.flatMap fun c => if isUnreserved c || safe.contains c then [c] else (utf8Bytes c).flatMap percentByte

/-! ### Basic facts -/

/-- A character that is written as it stands is read as its bytes. -/
private theorem percentBytes_cons {c : Char} (hc : c ≠ '%') (rest : List Char) :
    percentBytes (c :: rest) = utf8Bytes c ++ percentBytes rest := by
  rcases rest with _ | ⟨a, _ | ⟨b, rest⟩⟩ <;> simp [percentBytes, hc]

private theorem hexDigitValue?_digit : ∀ n < 16,
    hexDigitValue? (Char.ofNat (if n < 10 then '0'.toNat + n else 'A'.toNat + (n - 10))) = some n := by
  decide

/-- A byte is read back. -/
private theorem percentBytes_percentByte {b : Nat} (hb : b < 256) (rest : List Char) :
    percentBytes (percentByte b ++ rest) = b :: percentBytes rest := by
  have hhigh := hexDigitValue?_digit (b / 16) (by omega)
  have hlow := hexDigitValue?_digit (b % 16) (by omega)
  simp only [percentByte, List.cons_append, List.nil_append, percentBytes, hhigh, hlow]
  congr 1
  omega

/-- Bytes are read back. -/
private theorem percentBytes_flatMap {bytes : List Nat} (h : ∀ b ∈ bytes, b < 256) (rest : List Char) :
    percentBytes (bytes.flatMap percentByte ++ rest) = bytes ++ percentBytes rest := by
  induction bytes with
  | nil => rfl
  | cons b bytes ih =>
    rw [List.flatMap_cons, List.append_assoc, percentBytes_percentByte (h b List.mem_cons_self),
      ih fun b' hb' => h b' (List.mem_cons_of_mem _ hb'), List.cons_append]

/-- The numbers of characters leave out the halves of surrogate pairs. -/
private theorem toNat_bounds (c : Char) : c.toNat < 0xd800 ∨ 0xdfff < c.toNat ∧ c.toNat < 0x110000 := c.valid

private theorem lt_of_mem_utf8Bytes {c : Char} {b : Nat} (h : b ∈ utf8Bytes c) : b < 256 := by
  have := toNat_bounds c
  unfold utf8Bytes at h
  dsimp only at h
  split at h
  · rw [List.mem_singleton] at h
    omega
  · split at h
    · simp only [List.mem_cons, List.not_mem_nil, or_false] at h
      omega
    · split at h
      · simp only [List.mem_cons, List.not_mem_nil, or_false] at h
        omega
      · simp only [List.mem_cons, List.not_mem_nil, or_false] at h
        omega

/-- A byte within the bounds, after which more bytes are missing. -/
private theorem utf8Chars_more {bits missing low high b : Nat} (hlow : low ≤ b) (hhigh : b ≤ high)
    (hmissing : 1 < missing) (rest : List Nat) : utf8Chars (some (bits, missing, low, high)) (b :: rest) =
      utf8Chars (some (bits * 0x40 + (b - 0x80), missing - 1, 0x80, 0xbf)) rest := by
  simp [utf8Chars, utf8Step, hlow, hhigh, Nat.not_le.2 hmissing]

/-- A byte within the bounds, which is the last one. -/
private theorem utf8Chars_last {bits low high b : Nat} (hlow : low ≤ b) (hhigh : b ≤ high) (rest : List Nat) :
    utf8Chars (some (bits, 1, low, high)) (b :: rest) =
      Char.ofNat (bits * 0x40 + (b - 0x80)) :: utf8Chars none rest := by
  simp [utf8Chars, utf8Step, hlow, hhigh]

/-- A first byte, after which more bytes are missing. -/
private theorem utf8Chars_lead {bits missing low high b : Nat}
    (h : leadByte? b = some (bits, missing + 1, low, high)) (rest : List Nat) :
    utf8Chars none (b :: rest) = utf8Chars (some (bits, missing + 1, low, high)) rest := by
  simp [utf8Chars, utf8Step, beginChar, h]

/-- The bytes of a character form the character. -/
private theorem utf8Chars_utf8Bytes (c : Char) (rest : List Nat) :
    utf8Chars none (utf8Bytes c ++ rest) = c :: utf8Chars none rest := by
  have hbounds := toNat_bounds c
  have hchar : ∀ n, n = c.toNat → Char.ofNat n = c := fun n hn => hn ▸ Char.ofNat_toNat c
  unfold utf8Bytes
  dsimp only
  generalize c.toNat = n at hbounds hchar ⊢
  split
  · rename_i hsmall
    have hlead : leadByte? n = some (n, 0, 0, 0) := by simp [leadByte?, hsmall]
    simp [utf8Chars, utf8Step, beginChar, hlead, hchar n rfl]
  · split
    · have hlead : leadByte? (0xc0 + n / 0x40) = some (n / 0x40, 0 + 1, 0x80, 0xbf) := by
        unfold leadByte?
        rw [if_neg (by omega), if_neg (by omega), if_pos (by omega), Nat.add_sub_cancel_left]
      simp only [List.cons_append, List.nil_append]
      rw [utf8Chars_lead hlead, utf8Chars_last (by omega) (by omega), hchar _ (by omega)]
    · split
      · have hlead : leadByte? (0xe0 + n / 0x1000) = some (n / 0x1000, 1 + 1,
            if 0xe0 + n / 0x1000 = 0xe0 then 0xa0 else 0x80, if 0xe0 + n / 0x1000 = 0xed then 0x9f else 0xbf) := by
          unfold leadByte?
          rw [if_neg (by omega), if_neg (by omega), if_neg (by omega), if_pos (by omega), Nat.add_sub_cancel_left]
        simp only [List.cons_append, List.nil_append]
        rw [utf8Chars_lead hlead, utf8Chars_more (by split <;> omega) (by split <;> omega) (by omega),
          utf8Chars_last (by omega) (by omega), hchar _ (by omega)]
      · have hlead : leadByte? (0xf0 + n / 0x40000) = some (n / 0x40000, 2 + 1,
            if 0xf0 + n / 0x40000 = 0xf0 then 0x90 else 0x80, if 0xf0 + n / 0x40000 = 0xf4 then 0x8f else 0xbf) := by
          unfold leadByte?
          rw [if_neg (by omega), if_neg (by omega), if_neg (by omega), if_neg (by omega), if_pos (by omega),
            Nat.add_sub_cancel_left]
        simp only [List.cons_append, List.nil_append]
        rw [utf8Chars_lead hlead, utf8Chars_more (by split <;> omega) (by split <;> omega) (by omega),
          utf8Chars_more (by omega) (by omega) (by omega), utf8Chars_last (by omega) (by omega), hchar _ (by omega)]

private theorem percentBytes_percentEncode {safe : List Char} (hsafe : '%' ∉ safe) (cs : List Char) :
    percentBytes (percentEncode safe cs) = cs.flatMap utf8Bytes := by
  induction cs with
  | nil => rfl
  | cons c cs ih =>
    have hrest : percentEncode safe (c :: cs) = (if isUnreserved c || safe.contains c then [c]
        else (utf8Bytes c).flatMap percentByte) ++ percentEncode safe cs := rfl
    rw [hrest, List.flatMap_cons]
    split
    · rename_i hplain
      have hc : c ≠ '%' := by
        rintro rfl
        rw [Bool.or_eq_true, List.contains_iff_mem] at hplain
        exact hplain.elim (by decide) hsafe
      rw [List.singleton_append, percentBytes_cons hc, ih]
    · rw [percentBytes_flatMap fun b => lt_of_mem_utf8Bytes, ih]

/-- What has been written is read back, if percent signs have been encoded. -/
theorem percentDecode_percentEncode {safe : List Char} (hsafe : '%' ∉ safe) (cs : List Char) :
    percentDecode (percentEncode safe cs) = cs := by
  unfold percentDecode
  rw [percentBytes_percentEncode hsafe]
  induction cs with
  | nil => rfl
  | cons c cs ih => rw [List.flatMap_cons, utf8Chars_utf8Bytes, ih]

private theorem isUnreserved_digit : ∀ n < 16,
    isUnreserved (Char.ofNat (if n < 10 then '0'.toNat + n else 'A'.toNat + (n - 10))) = true := by
  decide

private theorem mem_percentByte {b : Nat} (hb : b < 256) {c : Char} (h : c ∈ percentByte b) :
    isUnreserved c = true ∨ c = '%' := by
  have hhigh := isUnreserved_digit (b / 16) (by omega)
  have hlow := isUnreserved_digit (b % 16) (by omega)
  simp only [percentByte, List.mem_cons, List.not_mem_nil, or_false] at h
  rcases h with rfl | rfl | rfl
  · exact .inr rfl
  · exact .inl hhigh
  · exact .inl hlow

/-- A text is written with unreserved characters, those of `safe`, and percent signs. -/
theorem mem_percentEncode {safe cs : List Char} {c : Char} (h : c ∈ percentEncode safe cs) :
    isUnreserved c = true ∨ c ∈ safe ∨ c = '%' := by
  obtain ⟨c', -, hc⟩ := List.mem_flatMap.1 h
  split at hc
  · rename_i hplain
    rw [List.mem_singleton] at hc
    rw [Bool.or_eq_true, List.contains_iff_mem] at hplain
    exact hc ▸ hplain.imp_right .inl
  · obtain ⟨b, hb, hc⟩ := List.mem_flatMap.1 hc
    exact (mem_percentByte (lt_of_mem_utf8Bytes hb) hc).imp_right .inr

end PaymentRetry.Text
