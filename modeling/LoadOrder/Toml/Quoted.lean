/-!
# Quoted texts in TOML

There are four ways to quote a text: with double quotes, inside which a backslash starts an escape,
or with single quotes, inside which it does not; and either on one line or, with three quotes at
each end, on several.  One machine reads all four, a character at a step.

`body_escaped` says that what `quote` writes is read back.
-/

namespace LoadOrder.Toml

/-- A way to quote a text. -/
structure QuoteStyle where
  mark : Char
  /-- Whether a backslash starts an escape. -/
  escapes : Bool
  /-- Whether the text may have several lines; then three marks end it. -/
  lines : Bool
  deriving DecidableEq, Repr

/-- What the machine is in the midst of. -/
inductive QuoteMode where
  | plain
  /-- After a backslash. -/
  | escape
  /-- In the digits of a code point: how many follow the next one, and the value so far. -/
  | code (more value : Nat)
  /-- After a backslash and blanks; the line has to end here. -/
  | lineEnd
  /-- In the white space at the start of a line that a backslash has joined to the one before. -/
  | margin
  deriving DecidableEq, Repr

def isSpace (c : Char) : Bool := c = ' ' || c = '\t'

/-- Whether a character may stand in texts and comments: a tab, and all that are not controls. -/
def isText (c : Char) : Bool := c = '\t' || (0x20 ≤ c.toNat && c.toNat != 0x7F)

def hexDigit? (c : Char) : Option Nat :=
  if '0' ≤ c ∧ c ≤ '9' then some (c.toNat - '0'.toNat)
  else if 'a' ≤ c ∧ c ≤ 'f' then some (c.toNat - 'a'.toNat + 10)
  else if 'A' ≤ c ∧ c ≤ 'F' then some (c.toNat - 'A'.toNat + 10)
  else none

/-- The character with a code point, if there is one. -/
def scalar? (n : Nat) : Option Char :=
  if n.isValidChar then some (Char.ofNat n) else none

/-- The character that a letter after a backslash stands for. -/
def escaped? (c : Char) : Option Char :=
  match c with
  | 'b' => some '\x08'
  | 't' => some '\t'
  | 'n' => some '\n'
  | 'f' => some '\x0c'
  | 'r' => some '\r'
  | '"' => some '"'
  | '\\' => some '\\'
  | _ => none

/-- Puts a character before a text that was read. -/
def emit (c : Char) (r : Option (List Char × List Char)) : Option (List Char × List Char) :=
  r.map fun (text, rest) => (c :: text, rest)

/-- Reads a quoted text up to its end, and gives what follows the end.  A line end is read as a line
feed.  Where a text of several lines ends in four or five marks, the first ones belong to it. -/
def QuoteStyle.body (style : QuoteStyle) :
    QuoteMode → List Char → Option (List Char × List Char)
  | _, [] => none
  | .code more value, c :: rest =>
    match hexDigit? c with
    | none => none
    | some d =>
      match more with
      | 0 =>
        match scalar? (value * 16 + d) with
        | none => none
        | some ch => emit ch (style.body .plain rest)
      | more + 1 => style.body (.code more (value * 16 + d)) rest
  | .escape, c :: rest =>
    if c = 'u' then style.body (.code 3 0) rest
    else if c = 'U' then style.body (.code 7 0) rest
    else
      match escaped? c with
      | some ch => emit ch (style.body .plain rest)
      | none =>
        if !style.lines then none
        else if isSpace c || (c = '\r' && rest.head? = some '\n') then style.body .lineEnd rest
        else if c = '\n' then style.body .margin rest
        else none
  | .lineEnd, c :: rest =>
    if isSpace c || (c = '\r' && rest.head? = some '\n') then style.body .lineEnd rest
    else if c = '\n' then style.body .margin rest
    else none
  | mode, c :: rest =>
    if mode = .margin && (isSpace c || c = '\n' || (c = '\r' && rest.head? = some '\n')) then
      style.body .margin rest
    else if c = style.mark then
      if !style.lines then some ([], rest)
      else
        let marks := (rest.takeWhile (· = style.mark)).length
        if marks < 2 then emit c (style.body .plain rest)
        else some (List.replicate (min marks 4 - 2) c, rest.drop (min marks 4))
    else if style.escapes && c = '\\' then style.body .escape rest
    else if style.lines && c = '\n' then emit c (style.body .plain rest)
    else if style.lines && c = '\r' && rest.head? = some '\n' then style.body .plain rest
    else if isText c then emit c (style.body .plain rest)
    else none

/-- Double quotes around one line. -/
def QuoteStyle.basic : QuoteStyle := ⟨'"', true, false⟩

/-- Single quotes around one line. -/
def QuoteStyle.literal : QuoteStyle := ⟨'\'', false, false⟩

/-- Drops a line end from the start. -/
def dropLineEnd : List Char → List Char
  | '\n' :: rest => rest
  | '\r' :: '\n' :: rest => rest
  | cs => cs

/-- Reads a text with its quotes, in any of the four ways. -/
def quoted? : List Char → Option (String × List Char)
  | a :: b :: c :: rest =>
    let style := if a = '"' then some QuoteStyle.basic
      else if a = '\'' then some QuoteStyle.literal
      else none
    style.bind fun style =>
      let read :=
        if b = a ∧ c = a then { style with lines := true }.body .plain (dropLineEnd rest)
        else style.body .plain (b :: c :: rest)
      read.map fun (text, rest) => (String.ofList text, rest)
  | ['"', '"'] | ['\'', '\''] => some ("", [])
  | _ => none

/-! ### Writing -/

/-- A digit of base sixteen. -/
def hexDigit (n : Nat) : Char := if n < 10 then Char.ofNat (48 + n) else Char.ofNat (55 + n)

/-- A character inside double quotes. -/
def escapeChar (c : Char) : List Char :=
  if c = '"' then ['\\', '"']
  else if c = '\\' then ['\\', '\\']
  else if c = '\x08' then ['\\', 'b']
  else if c = '\t' then ['\\', 't']
  else if c = '\n' then ['\\', 'n']
  else if c = '\x0c' then ['\\', 'f']
  else if c = '\r' then ['\\', 'r']
  else if isText c then [c]
  else ['\\', 'u', '0', '0', hexDigit (c.toNat / 16), hexDigit (c.toNat % 16)]

/-- A text in double quotes. -/
def quote (text : String) : List Char := '"' :: (text.toList.flatMap escapeChar ++ ['"'])

theorem hexDigit?_hexDigit {n : Nat} (h : n < 16) : hexDigit? (hexDigit n) = some n := by
  have key : ∀ m : Fin 16, hexDigit? (hexDigit m) = some m.val := by decide
  exact key ⟨n, h⟩

theorem body_escapeChar (c : Char) (rest : List Char) :
    QuoteStyle.basic.body .plain (escapeChar c ++ rest) =
      emit c (QuoteStyle.basic.body .plain rest) := by
  unfold escapeChar
  split
  · subst_vars; rfl
  split
  · subst_vars; rfl
  split
  · subst_vars; rfl
  split
  · subst_vars; rfl
  split
  · subst_vars; rfl
  split
  · subst_vars; rfl
  split
  · subst_vars; rfl
  split
  · rename_i hq hb _ _ _ _ _ ht
    simp [QuoteStyle.body, QuoteStyle.basic, hq, hb, ht]
  · rename_i ht
    have hc : c.toNat < 128 := by
      simp only [isText, Bool.or_eq_true, Bool.and_eq_true, decide_eq_true_eq, bne_iff_ne,
        not_or, not_and] at ht
      omega
    have h1 := hexDigit?_hexDigit (n := c.toNat / 16) (by omega)
    have h2 := hexDigit?_hexDigit (n := c.toNat % 16) (by omega)
    have h0 : hexDigit? '0' = some 0 := by decide
    have hu : escaped? 'u' = none := by decide
    have hv : c.toNat / 16 * 16 + c.toNat % 16 = c.toNat := by omega
    have hs : scalar? c.toNat = some c := by
      have : c.toNat.isValidChar := c.valid
      simp [scalar?, this]
    simp [QuoteStyle.body, QuoteStyle.basic, h0, h1, h2, hv, hs]

/-- A text in double quotes is read back, with what follows it. -/
theorem body_escaped (text rest : List Char) :
    QuoteStyle.basic.body .plain (text.flatMap escapeChar ++ '"' :: rest) = some (text, rest) := by
  induction text with
  | nil => simp [QuoteStyle.body, QuoteStyle.basic]
  | cons c text ih =>
    rw [List.flatMap_cons, List.append_assoc, body_escapeChar, ih]
    rfl

end LoadOrder.Toml
