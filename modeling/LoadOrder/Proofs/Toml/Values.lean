import LoadOrder.Toml.Printer
import LoadOrder.Toml.Reader
import Mathlib.Data.List.Basic
import Mathlib.Tactic.SplitIfs

/-!
# Written values are read back

A value is written in one way and can be read in many: the reader tells texts, arrays, flags, dates
and numbers apart by their first characters, and a number from a date only further on.
`Toml.Spells` says that what is written reads back as the value, with all that follows it left.  It
holds of every text in quotes, of arrays in each of their layouts, of flags, and of numbers up to
the greatest.
-/

namespace LoadOrder.Toml

variable {rest : List Char}

theorem ne_of_test {test : Char → Bool} {a b : Char} (ha : test a = true) (hb : ¬ test b = true) :
    a ≠ b := by
  rintro rfl
  exact hb ha

/-! ### Texts -/

theorem quote_append (text : String) :
    quote text ++ rest = '"' :: (text.toList.flatMap escapeChar ++ '"' :: rest) := by
  simp [quote]

theorem escapeChar_eq_cons (c : Char) :
    ∃ first others, escapeChar c = first :: others ∧ first ≠ '"' := by
  unfold escapeChar
  split_ifs with hquote <;> simp [hquote]

theorem quoted?_eq_body {b c : Char} (h : ¬ (b = '"' ∧ c = '"')) :
    quoted? ('"' :: b :: c :: rest) =
      (QuoteStyle.basic.body .plain (b :: c :: rest)).map fun read =>
        (String.ofList read.1, read.2) := by
  simp only [quoted?, if_true, Option.bind_some, if_neg h]

/-- **A text in quotes is read back**, unless another quote follows it. -/
theorem quoted?_quote (text : String) (hrest : rest.head? ≠ some '"') :
    quoted? (quote text ++ rest) = some (text, rest) := by
  have hread := body_escaped text.toList rest
  rw [quote_append]
  cases htext : text.toList with
  | nil =>
    obtain rfl : text = "" := String.toList_eq_nil_iff.1 htext
    cases rest with
    | nil => rfl
    | cons c rest =>
      rw [htext] at hread
      have hc : ¬ ('"' = '"' ∧ c = '"') := by simpa using hrest
      simp only [List.flatMap_nil, List.nil_append] at hread ⊢
      rw [quoted?_eq_body hc, hread]
      rfl
  | cons d others =>
    -- the first character inside is not a quote, so these are not three quotes
    rw [htext] at hread
    obtain ⟨b, escaped, hescape, hb⟩ := escapeChar_eq_cons d
    obtain ⟨c, more, hmore⟩ : ∃ c more, escaped ++ (others.flatMap escapeChar ++ '"' :: rest) =
        c :: more := List.exists_cons_of_ne_nil (by simp)
    have hall : (d :: others).flatMap escapeChar ++ '"' :: rest = b :: c :: more := by
      rw [← hmore]
      simp [hescape]
    rw [hall] at hread ⊢
    rw [quoted?_eq_body fun h => hb h.1, hread, ← htext]
    simp

theorem value?_quote (depth : Nat) (text : String) (rest : List Char)
    (hrest : rest.head? ≠ some '"') :
    value? depth (quote text ++ rest) = some (.string text, rest) := by
  have hread := quoted?_quote text hrest
  rw [quote_append] at hread ⊢
  unfold value?
  simp [hread]

/-! ### Values at the end of a line -/

/-- At the end of a line, the text is read as the value, with white space before it. -/
def Spells (text : List Char) (value : Value) : Prop :=
  ∀ rest, value? nestingLimit (skipSpace (text ++ '\n' :: rest)) = some (value, '\n' :: rest)

theorem spells_quote (text : String) : Spells (quote text) (.string text) := by
  intro rest
  have hskip : skipSpace (quote text ++ '\n' :: rest) = quote text ++ '\n' :: rest := by
    simp [quote, skipSpace, isSpace]
  rw [hskip]
  exact value?_quote _ text _ (by simp)

theorem spells_flag (flag : Bool) :
    Spells (if flag then "true" else "false").toList (.boolean flag) := by
  intro rest
  cases flag <;> rfl

/-! ### Arrays -/

theorem items?_close (item : List Char → Option (Value × List Char)) :
    items? item (']' :: rest) = some ([], rest) := by
  rw [items?]
  simp [skipFiller, isSpace]

theorem items?_last (depth : Nat) (text : String) :
    items? (value? depth) (quote text ++ ']' :: rest) = some ([.string text], rest) := by
  have hitem := value?_quote depth text (']' :: rest) (by simp)
  rw [quote_append] at hitem ⊢
  rw [items?]
  simp [skipFiller, isSpace, hitem]

theorem items?_line (depth : Nat) (text : String) (cs : List Char) :
    items? (value? depth) ('\n' :: ("    ".toList ++ (quote text ++ ',' :: cs))) =
      (items? (value? depth) cs).map fun read => (.string text :: read.1, read.2) := by
  have hitem := value?_quote depth text (',' :: cs) (by simp)
  have hshorter : cs.length <
      ('\n' :: ("    ".toList ++ (quote text ++ ',' :: cs))).length := by
    simp only [List.length_cons, List.length_append]
    omega
  have hskip : skipFiller false ('\n' :: ("    ".toList ++ (quote text ++ ',' :: cs))) =
      quote text ++ ',' :: cs := by
    simp [quote_append, skipFiller, isSpace]
  have hcomma : skipFiller false (',' :: cs) = ',' :: cs := by simp [skipFiller, isSpace]
  rw [quote_append] at hitem hshorter hskip ⊢
  rw [items?, hskip]
  simp only [List.cons.injEq, Char.reduceEq, false_and, imp_self, implies_true, hitem, hcomma,
    if_pos hshorter]

theorem items?_lines (depth : Nat) (items : List String) :
    items? (value? depth) ('\n' :: ((items.flatMap fun item =>
      "    ".toList ++ quote item ++ [',', '\n']) ++ ']' :: rest)) =
      some (items.map .string, rest) := by
  induction items with
  | nil =>
    rw [items?]
    simp [skipFiller, isSpace]
  | cons item items ih =>
    have hline : ((item :: items).flatMap fun item =>
        "    ".toList ++ quote item ++ [',', '\n']) ++ ']' :: rest =
        "    ".toList ++ (quote item ++ ',' :: '\n' :: ((items.flatMap fun item =>
          "    ".toList ++ quote item ++ [',', '\n']) ++ ']' :: rest)) := by
      simp
    rw [hline, items?_line, ih]
    rfl

theorem value?_bracket (body : List Char) :
    value? nestingLimit (skipSpace ('[' :: body)) =
      (items? (value? (nestingLimit - 1)) body).map fun read => (.array read.1, read.2) := by
  show value? (78 + 1) ('[' :: body) = (items? (value? 78) body).map _
  unfold value?
  simp

theorem spells_arrayText (items : List String) :
    Spells (arrayText items) (.array (items.map .string)) := by
  intro rest
  match items with
  | [] =>
    show value? nestingLimit (skipSpace ('[' :: ']' :: '\n' :: rest)) = _
    rw [value?_bracket, items?_close]
    rfl
  | [item] =>
    have htext : arrayText [item] ++ '\n' :: rest = '[' :: (quote item ++ ']' :: '\n' :: rest) := by
      simp [arrayText]
    rw [htext, value?_bracket, items?_last]
    rfl
  | first :: second :: others =>
    have htext : arrayText (first :: second :: others) ++ '\n' :: rest =
        '[' :: '\n' :: (((first :: second :: others).flatMap fun item =>
          "    ".toList ++ quote item ++ [',', '\n']) ++ ']' :: '\n' :: rest) := by
      simp [arrayText]
    rw [htext, value?_bracket, items?_lines]
    rfl

/-! ### Numbers -/

/-- A list of digits. -/
def AllDigits (digits : List Char) : Prop := ∀ c ∈ digits, isDigit c = true

variable {digits : List Char}

theorem moreDigits_digits (h : AllDigits digits) :
    moreDigits isDigit (digits ++ '\n' :: rest) = some (digits, '\n' :: rest) := by
  induction digits with
  | nil => rfl
  | cons c digits ih =>
    obtain ⟨hc, hdigits⟩ := List.forall_mem_cons.1 h
    have hunderscore : c ≠ '_' := ne_of_test hc (by decide)
    rw [List.cons_append, moreDigits.eq_def]
    simp [hunderscore, hc, ih hdigits, emit]

theorem not_isDigit_newline : ¬ isDigit '\n' = true := by decide

theorem eq_of_twoDigits? {low high value : Nat} {cs others : List Char}
    (h : twoDigits? low high cs = some (value, others)) :
    ∃ a b, cs = a :: b :: others ∧ isDigit a = true ∧ isDigit b = true := by
  simp only [twoDigits?] at h
  split at h
  · rename_i a b more
    split_ifs at h with hdigits
    cases h
    simp only [Bool.and_eq_true] at hdigits
    exact ⟨a, b, rfl, hdigits.1.1.1, hdigits.1.1.2⟩
  · cases h

theorem exists_of_twoDigits? {low high value : Nat} {others : List Char} (h : AllDigits digits)
    (htwo : twoDigits? low high (digits ++ '\n' :: rest) = some (value, others)) :
    ∃ left, AllDigits left ∧ others = left ++ '\n' :: rest := by
  obtain ⟨a, b, heq, ha, hb⟩ := eq_of_twoDigits? htwo
  match digits with
  | [] =>
    rw [List.nil_append, List.cons.injEq] at heq
    exact absurd (heq.1 ▸ ha) not_isDigit_newline
  | [x] =>
    simp only [List.cons_append, List.nil_append, List.cons.injEq] at heq
    exact absurd (heq.2.1 ▸ hb) not_isDigit_newline
  | x :: y :: left =>
    simp only [List.cons_append, List.cons.injEq] at heq
    exact ⟨left, fun c hc => h c (by simp [hc]), heq.2.2.symm⟩

theorem mark?_digits {c : Char} (h : AllDigits digits) (hc : ¬ isDigit c = true) (hne : c ≠ '\n') :
    mark? c (digits ++ '\n' :: rest) = none := by
  cases digits with
  | nil => simp [mark?, Ne.symm hne]
  | cons d digits =>
    simp [mark?, ne_of_test (h d List.mem_cons_self) hc]

/-- Digits alone are no date and no time: those go on with a hyphen or a colon. -/
theorem moment?_digits (h : AllDigits digits) (rest : List Char) :
    moment? (digits ++ '\n' :: rest) = none := by
  have hdate : date? (digits ++ '\n' :: rest) = none := by
    rw [date?]
    cases hcentury : twoDigits? 0 99 (digits ++ '\n' :: rest) with
    | none => rfl
    | some read =>
      obtain ⟨left, hleft, heq⟩ := exists_of_twoDigits? h hcentury
      simp only [Option.bind_eq_bind, Option.bind_some, heq]
      cases hyear : twoDigits? 0 99 (left ++ '\n' :: rest) with
      | none => rfl
      | some read =>
        obtain ⟨left, hleft, heq⟩ := exists_of_twoDigits? hleft hyear
        simp only [Option.bind_some, heq]
        rw [mark?_digits hleft (by decide) (by decide)]
        rfl
  have htime : time? (digits ++ '\n' :: rest) = none := by
    rw [time?]
    cases hhour : twoDigits? 0 23 (digits ++ '\n' :: rest) with
    | none => rfl
    | some read =>
      obtain ⟨left, hleft, heq⟩ := exists_of_twoDigits? h hhour
      simp only [Option.bind_eq_bind, Option.bind_some, heq]
      rw [mark?_digits hleft (by decide) (by decide)]
      rfl
  rw [moment?, hdate, htime]
  rfl

theorem allDigits_toDigits (n : Nat) : AllDigits (Nat.toDigits 10 n) :=
  fun _ hc => Nat.isDigit_of_mem_toDigits (by decide) (by decide) hc

theorem hexDigit?_of_isDigit {c : Char} (hc : isDigit c = true) :
    hexDigit? c = some (c.toNat - '0'.toNat) := by
  simp only [isDigit, Bool.and_eq_true, decide_eq_true_eq] at hc
  rw [hexDigit?, if_pos hc]

theorem digitsValue_eq (h : AllDigits digits) :
    digitsValue 10 digits = Nat.ofDigitChars 10 digits 0 := by
  rw [digitsValue, Nat.ofDigitChars_eq_foldl]
  refine List.foldl_ext _ _ 0 fun n c hc => ?_
  rw [hexDigit?_of_isDigit (h c hc), Option.getD_some, Nat.mul_comm]

theorem digitsValue_toDigits (n : Nat) : digitsValue 10 (Nat.toDigits 10 n) = n := by
  rw [digitsValue_eq (allDigits_toDigits n), Nat.ofDigitChars_ten_toDigits]

theorem head_toDigits_ne_zero {n : Nat} (hn : n ≠ 0) : (Nat.toDigits 10 n).head? ≠ some '0' := by
  induction n using Nat.strongRecOn with
  | ind n ih =>
    by_cases hlt : n < 10
    · rw [Nat.toDigits_of_lt_base hlt]
      simpa [Nat.digitChar_eq_zero] using hn
    · rw [Nat.toDigits_of_base_le (by decide) (by omega),
        List.head?_append_of_ne_nil _ Nat.toDigits_ne_nil]
      exact ih (n / 10) (by omega) (by omega)

theorem afterWhole?_newline (whole : List Char) (hmax : digitsValue 10 whole ≤ integerMax) :
    afterWhole? false whole ('\n' :: rest) =
      some (.integer (digitsValue 10 whole), '\n' :: rest) := by
  simp [afterWhole?, integer?, hmax]

theorem number?_digits {d : Char} (h : AllDigits (d :: digits)) (hzero : d ≠ '0')
    (hmax : digitsValue 10 (d :: digits) ≤ integerMax) (rest : List Char) :
    number? (d :: digits ++ '\n' :: rest) =
      some (.integer (digitsValue 10 (d :: digits)), '\n' :: rest) := by
  obtain ⟨hd, hdigits⟩ := List.forall_mem_cons.1 h
  have hother : ∀ c, ¬ isDigit c = true → d ≠ c := fun c => ne_of_test hd
  have hsign : sign (d :: (digits ++ '\n' :: rest)) = (false, d :: (digits ++ '\n' :: rest)) := by
    simp [sign, hother '+' (by decide), hother '-' (by decide)]
  have hwhole : wholeDigits? (d :: (digits ++ '\n' :: rest)) =
      some (d :: digits, '\n' :: rest) := by
    simp [wholeDigits?, hzero, digits?, hd, moreDigits_digits hdigits, emit]
  rw [List.cons_append, number?.eq_def]
  simp [hzero, hsign, hother 'i' (by decide), hother 'n' (by decide), hwhole,
    afterWhole?_newline (d :: digits) hmax]

/-- **A number that is not too great is read back.** -/
theorem spells_toString {n : Nat} (hn : n ≤ integerMax) :
    Spells (toString n).toList (.integer n) := by
  intro rest
  have htext : (toString n).toList = Nat.toDigits 10 n := by simp
  rw [htext]
  by_cases hzero : n = 0
  · subst hzero
    rfl
  obtain ⟨d, digits, hdigits⟩ := List.exists_cons_of_ne_nil (Nat.toDigits_ne_nil (b := 10) (n := n))
  have hall := allDigits_toDigits n
  have hvalue := digitsValue_toDigits n
  have hd : d ≠ '0' := by simpa [hdigits] using head_toDigits_ne_zero hzero
  rw [hdigits] at hall hvalue ⊢
  have hother : ∀ c, ¬ isDigit c = true → d ≠ c :=
    fun c => ne_of_test (hall d List.mem_cons_self)
  have hmoment := moment?_digits hall rest
  have hnumber := number?_digits hall hd (hvalue.symm ▸ hn) rest
  rw [hvalue] at hnumber
  rw [List.cons_append] at hmoment hnumber ⊢
  have hskip : skipSpace (d :: (digits ++ '\n' :: rest)) = d :: (digits ++ '\n' :: rest) := by
    simp [skipSpace, isSpace, hother ' ' (by decide), hother '\t' (by decide)]
  rw [hskip]
  unfold value?
  simp [hother '"' (by decide), hother '\'' (by decide), hother '[' (by decide),
    hother '\x7b' (by decide), hother 't' (by decide), hother 'f' (by decide), hmoment, hnumber]

end LoadOrder.Toml
