/-!
# UTF-8

Reading bytes as text.  The first byte of a character says how many bytes follow and which the next
one may be, so a fault is found at the first byte that no text could have there.
`decode_encode` says that the bytes of a text read back as that text.
-/

namespace LoadOrder.Utf8

/-- The first place where bytes are not text. -/
structure Fault where
  /-- Where the faulty sequence starts. -/
  index : Nat
  /-- How many bytes belong to the faulty sequence; none if the bytes end inside a character. -/
  length : Option Nat
  deriving DecidableEq, Repr

def Fault.message : Fault → String
  | ⟨index, some length⟩ =>
    "invalid utf-8 sequence of " ++ toString length ++ " bytes from index " ++ toString index
  | ⟨index, none⟩ => "incomplete utf-8 byte sequence from index " ++ toString index

/-- A character of which some bytes have been read. -/
structure Pending where
  /-- The bits read so far. -/
  value : Nat
  /-- How many bytes come after the next one. -/
  more : Nat
  /-- The least value of the next byte. -/
  low : Nat
  /-- The greatest value of the next byte. -/
  high : Nat
  deriving DecidableEq, Repr

/-- The character that a first byte of more than seven bits opens. -/
def opened? (b : Nat) : Option Pending :=
  if b < 0xC2 then none
  else if b < 0xE0 then some ⟨b - 0xC0, 0, 0x80, 0xBF⟩
  else if b = 0xE0 then some ⟨0, 1, 0xA0, 0xBF⟩
  else if b = 0xED then some ⟨0xD, 1, 0x80, 0x9F⟩
  else if b < 0xF0 then some ⟨b - 0xE0, 1, 0x80, 0xBF⟩
  else if b = 0xF0 then some ⟨0, 2, 0x90, 0xBF⟩
  else if b < 0xF4 then some ⟨b - 0xF0, 2, 0x80, 0xBF⟩
  else if b = 0xF4 then some ⟨4, 2, 0x80, 0x8F⟩
  else none

/-- Reads on: `start` is the index of the character being read, `length` the number of its bytes
already read, and `done` holds the characters before it, the last one first. -/
def decodeFrom (start length : Nat) (pending : Option Pending) (done : List Char) :
    List UInt8 → Except Fault (List Char)
  | [] =>
    match pending with
    | none => .ok done.reverse
    | some _ => .error ⟨start, none⟩
  | byte :: rest =>
    let b := byte.toNat
    match pending with
    | none =>
      if b < 0x80 then decodeFrom (start + 1) 0 none (Char.ofNat b :: done) rest
      else
        match opened? b with
        | none => .error ⟨start, some 1⟩
        | some p => decodeFrom start 1 (some p) done rest
    | some p =>
      if p.low ≤ b ∧ b ≤ p.high then
        let value := p.value * 64 + b % 64
        match p.more with
        | 0 => decodeFrom (start + length + 1) 0 none (Char.ofNat value :: done) rest
        | more + 1 => decodeFrom start (length + 1) (some ⟨value, more, 0x80, 0xBF⟩) done rest
      else .error ⟨start, some length⟩

/-- The text that some bytes stand for. -/
def decode (bytes : List UInt8) : Except Fault String :=
  (decodeFrom 0 0 none [] bytes).map String.ofList

/-- The bytes of a character: its bits in groups of six, the first byte with the rest. -/
def encodeChar (c : Char) : List UInt8 :=
  let n := c.toNat
  let last := UInt8.ofNat (0x80 + n % 64)
  let third := UInt8.ofNat (0x80 + n / 64 % 64)
  if n < 0x80 then [UInt8.ofNat n]
  else if n < 0x800 then [UInt8.ofNat (0xC0 + n / 64), last]
  else if n < 0x10000 then [UInt8.ofNat (0xE0 + n / 4096), third, last]
  else [UInt8.ofNat (0xF0 + n / 262144), UInt8.ofNat (0x80 + n / 4096 % 64), third, last]

/-- The bytes of a text. -/
def encode (text : String) : List UInt8 := text.toList.flatMap encodeChar

/-! ### Reading back what was written -/

theorem decodeFrom_open {b : Nat} {p : Pending} (hb : b < 256) (hlarge : 0x80 ≤ b)
    (hp : opened? b = some p) (start : Nat) (done : List Char) (rest : List UInt8) :
    decodeFrom start 0 none done (UInt8.ofNat b :: rest) =
      decodeFrom start 1 (some p) done rest := by
  simp only [decodeFrom, UInt8.toNat_ofNat_of_lt' hb, if_neg (Nat.not_lt.mpr hlarge), hp]

/-- A byte after the first adds a group of six bits. -/
theorem decodeFrom_next {group low high : Nat} (hgroup : group < 64) (hlow : low ≤ 0x80 + group)
    (hhigh : 0x80 + group ≤ high) (start length value more : Nat) (done : List Char)
    (rest : List UInt8) :
    decodeFrom start length (some ⟨value, more, low, high⟩) done
        (UInt8.ofNat (0x80 + group) :: rest) =
      match more with
      | 0 => decodeFrom (start + length + 1) 0 none (Char.ofNat (value * 64 + group) :: done) rest
      | more + 1 =>
        decodeFrom start (length + 1) (some ⟨value * 64 + group, more, 0x80, 0xBF⟩) done rest := by
  have hbyte : (UInt8.ofNat (0x80 + group)).toNat = 0x80 + group :=
    UInt8.toNat_ofNat_of_lt' (show _ < 256 by omega)
  have hbits : (0x80 + group) % 64 = group := by omega
  simp only [decodeFrom, hbyte, hbits, hlow, hhigh, and_self, if_true]

theorem opened?_two {n : Nat} (hlow : 0x80 ≤ n) (hhigh : n < 0x800) :
    opened? (0xC0 + n / 64) = some ⟨n / 64, 0, 0x80, 0xBF⟩ := by
  rw [opened?, if_neg (by omega), if_pos (by omega), Nat.add_sub_cancel_left]

/-- The first of three bytes allows the second one; surrogates are not characters. -/
theorem exists_opened?_three {n : Nat} (hlow : 0x800 ≤ n) (hhigh : n < 0x10000)
    (hchar : n < 0xD800 ∨ 0xDFFF < n) : ∃ low high,
      opened? (0xE0 + n / 4096) = some ⟨n / 4096, 1, low, high⟩ ∧
        low ≤ 0x80 + n / 64 % 64 ∧ 0x80 + n / 64 % 64 ≤ high := by
  unfold opened?
  rw [if_neg (by omega), if_neg (by omega)]
  split
  · exact ⟨0xA0, 0xBF, by simp; omega, by omega, by omega⟩
  · split
    · exact ⟨0x80, 0x9F, by simp; omega, by omega, by omega⟩
    · rw [if_pos (by omega)]
      exact ⟨0x80, 0xBF, by simp, by omega, by omega⟩

theorem exists_opened?_four {n : Nat} (hlow : 0x10000 ≤ n) (hhigh : n < 0x110000) :
    ∃ low high, opened? (0xF0 + n / 262144) = some ⟨n / 262144, 2, low, high⟩ ∧
      low ≤ 0x80 + n / 4096 % 64 ∧ 0x80 + n / 4096 % 64 ≤ high := by
  unfold opened?
  rw [if_neg (by omega), if_neg (by omega), if_neg (by omega), if_neg (by omega),
    if_neg (by omega)]
  split
  · exact ⟨0x90, 0xBF, by simp; omega, by omega, by omega⟩
  · split
    · exact ⟨0x80, 0xBF, by simp, by omega, by omega⟩
    · rw [if_pos (by omega)]
      exact ⟨0x80, 0x8F, by simp; omega, by omega, by omega⟩

/-- Reading one more character of a text. -/
theorem decodeFrom_encodeChar (start : Nat) (done : List Char) (c : Char) (rest : List UInt8) :
    decodeFrom start 0 none done (encodeChar c ++ rest) =
      decodeFrom (start + (encodeChar c).length) 0 none (c :: done) rest := by
  have hc := c.valid
  have hn : c.val.toNat = c.toNat := rfl
  simp only [UInt32.isValidChar, Nat.isValidChar, hn] at hc
  have hof : Char.ofNat c.toNat = c := Char.ofNat_toNat c
  unfold encodeChar
  generalize c.toNat = n at *
  dsimp only
  -- in each case the groups of bits make up the number again
  split
  · rename_i hone
    have hbyte : (UInt8.ofNat n).toNat = n := UInt8.toNat_ofNat_of_lt' (show _ < 256 by omega)
    simp only [List.cons_append, List.nil_append, decodeFrom, hbyte, hof, hone, if_true]
    rfl
  split
  · have hp := opened?_two (n := n) (by omega) (by omega)
    have hbits : n / 64 * 64 + n % 64 = n := by omega
    rw [List.cons_append, List.cons_append, decodeFrom_open (by omega) (by omega) hp,
      decodeFrom_next (by omega) (by omega) (by omega)]
    simp only [hbits, hof]
    rfl
  split
  · obtain ⟨low, high, hp, hlow, hhigh⟩ := exists_opened?_three (n := n) (by omega) (by omega)
      (by omega)
    have hbits : (n / 4096 * 64 + n / 64 % 64) * 64 + n % 64 = n := by omega
    rw [List.cons_append, List.cons_append, List.cons_append,
      decodeFrom_open (by omega) (by omega) hp, decodeFrom_next (by omega) hlow hhigh]
    dsimp only
    rw [decodeFrom_next (by omega) (by omega) (by omega)]
    simp only [hbits, hof]
    rfl
  · obtain ⟨low, high, hp, hlow, hhigh⟩ := exists_opened?_four (n := n) (by omega) (by omega)
    have hbits : ((n / 262144 * 64 + n / 4096 % 64) * 64 + n / 64 % 64) * 64 + n % 64 = n := by
      omega
    rw [List.cons_append, List.cons_append, List.cons_append, List.cons_append,
      decodeFrom_open (by omega) (by omega) hp, decodeFrom_next (by omega) hlow hhigh]
    dsimp only
    rw [decodeFrom_next (by omega) (by omega) (by omega)]
    dsimp only
    rw [decodeFrom_next (by omega) (by omega) (by omega)]
    simp only [hbits, hof]
    rfl

theorem decodeFrom_encode (start : Nat) (done cs : List Char) :
    decodeFrom start 0 none done (cs.flatMap encodeChar) = .ok (done.reverse ++ cs) := by
  induction cs generalizing start done with
  | nil => simp [decodeFrom]
  | cons c cs ih =>
    rw [List.flatMap_cons, decodeFrom_encodeChar, ih]
    simp

/-- The bytes of a text read back as that text. -/
theorem decode_encode (text : String) : decode (encode text) = .ok text := by
  simp [decode, encode, decodeFrom_encode, Except.map]

end LoadOrder.Utf8
