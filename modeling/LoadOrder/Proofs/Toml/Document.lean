import LoadOrder.Proofs.Toml.Values

/-!
# Written documents are read back

A document that is written as lines of keys with their values is read back as the table of these
keys and values (`Toml.parse?_keyLines`), if the keys can stand without quotes and no two are the
same.  What is used of the values is `Toml.Spells` alone.
-/

namespace LoadOrder.Toml

/-- A key with its value, and the text of the value as it is written. -/
structure KeyEntry where
  key : String
  text : List Char
  value : Value

/-- A key that needs no quotes. -/
def BareKey (key : String) : Prop := key ≠ "" ∧ key.toList.all isBare = true

instance (key : String) : Decidable (BareKey key) := inferInstanceAs (Decidable (_ ∧ _))

/-- The key needs no quotes, and the text is read as the value. -/
structure KeyEntry.Legible (e : KeyEntry) : Prop where
  bare : BareKey e.key
  spells : Spells e.text e.value

/-- The line of a key. -/
def KeyEntry.line (e : KeyEntry) : List Char := keyLine e.key e.text

variable {e : KeyEntry} {rest : List Char}

/-! ### Keys -/

variable {key : String}

theorem BareKey.isBare_of_mem (h : BareKey key) : ∀ c ∈ key.toList, isBare c = true :=
  List.all_eq_true.1 h.2

theorem BareKey.exists_toList_eq (h : BareKey key) :
    ∃ k ks, key.toList = k :: ks ∧ isBare k = true := by
  obtain ⟨k, ks, hkey⟩ := List.exists_cons_of_ne_nil (mt String.toList_eq_nil_iff.1 h.1)
  exact ⟨k, ks, hkey, h.isBare_of_mem k (hkey ▸ List.mem_cons_self)⟩

theorem BareKey.skipSpace_append (h : BareKey key) :
    skipSpace (key.toList ++ rest) = key.toList ++ rest := by
  obtain ⟨k, ks, hkey, hk⟩ := h.exists_toList_eq
  have hother : ∀ c, ¬ isBare c = true → k ≠ c := fun c => ne_of_test hk
  rw [hkey]
  simp [skipSpace, isSpace, hother ' ' (by decide), hother '\t' (by decide)]

theorem keyPart?_bare (h : BareKey key) :
    keyPart? (key.toList ++ ' ' :: rest) = some (key, ' ' :: rest) := by
  obtain ⟨k, ks, hkey, hk⟩ := h.exists_toList_eq
  have hother : ∀ c, ¬ isBare c = true → k ≠ c := fun c => ne_of_test hk
  have htake : (key.toList ++ ' ' :: rest).takeWhile isBare = key.toList := by
    rw [List.takeWhile_append_of_pos h.isBare_of_mem]
    simp [isBare]
  have hdrop : (key.toList ++ ' ' :: rest).dropWhile isBare = ' ' :: rest := by
    rw [List.dropWhile_append_of_pos h.isBare_of_mem]
    simp [isBare]
  have hname : String.ofList (k :: ks) = key := by rw [← hkey, String.ofList_toList]
  rw [hkey, List.cons_append] at htake hdrop ⊢
  rw [keyPart?.eq_def]
  simp [hother '"' (by decide), hother '\'' (by decide), htake, hdrop, hname]

theorem key?_bare (h : BareKey key) :
    key? (key.toList ++ ' ' :: '=' :: rest) = some (([], key), '=' :: rest) := by
  have hparts : keyParts? (key.toList ++ ' ' :: '=' :: rest) = some ([key], '=' :: rest) := by
    rw [keyParts?, h.skipSpace_append, keyPart?_bare h]
    rfl
  rw [key?, hparts]
  rfl

/-! ### Lines -/

theorem insert_new {t : Table} (value : Value) (hdotted : t.origin ≠ .dotted)
    (hnew : t.get? key = none) :
    t.insert [] key value = some ⟨t.origin, t.entries ++ [(key, value)]⟩ := by
  simp [Table.insert, Table.alterAt, Table.set, hdotted, hnew]

namespace Document

variable {d : Document}

/-- The document with one more key in the table that is being filled. -/
def add (d : Document) (e : KeyEntry) : Document :=
  { d with current := ⟨d.current.origin, d.current.entries ++ [(e.key, e.value)]⟩ }

theorem line?_keyLine (h : e.Legible) (hdotted : d.current.origin ≠ .dotted)
    (hnew : d.current.get? e.key = none) : d.line? (e.line ++ rest) = some (d.add e, rest) := by
  have hline : e.line ++ rest = e.key.toList ++ ' ' :: '=' :: ' ' :: (e.text ++ '\n' :: rest) := by
    simp [KeyEntry.line, keyLine]
  have hread : keyValue? (value? nestingLimit) (e.line ++ rest) =
      some (([], e.key, e.value), '\n' :: rest) := by
    have hspells : value? nestingLimit (skipSpace (' ' :: (e.text ++ '\n' :: rest))) =
        some (e.value, '\n' :: rest) := h.spells rest
    rw [hline, keyValue?, key?_bare h.bare]
    simp [mark?, hspells]
  obtain ⟨k, ks, hkey, hk⟩ := h.bare.exists_toList_eq
  have hother : ∀ c, ¬ isBare c = true → k ≠ c := fun c => ne_of_test hk
  rw [hline] at hread ⊢
  rw [hkey, List.cons_append] at hread ⊢
  rw [line?.eq_def]
  have htail : lineTail? ('\n' :: rest) = some rest := rfl
  simp [hother '[' (by decide), hother '#' (by decide), hother '\n' (by decide),
    hother '\r' (by decide), hread, insert_new _ hdotted hnew, add, htail]

theorem lines?_keyLine (h : e.Legible) (hdotted : d.current.origin ≠ .dotted)
    (hnew : d.current.get? e.key = none) : d.lines? (e.line ++ rest) = (d.add e).lines? rest := by
  have hskip : skipSpace (e.line ++ rest) = e.line ++ rest := by
    rw [KeyEntry.line, keyLine, List.append_assoc, List.append_assoc, List.append_assoc]
    exact h.bare.skipSpace_append
  have hlength : rest.length < (e.line ++ rest).length := by
    simp [KeyEntry.line, keyLine]
    omega
  have hne : e.line ++ rest ≠ [] := by simp [KeyEntry.line, keyLine]
  rw [lines?, hskip]
  split
  · rename_i hnil
    exact absurd hnil hne
  · rw [line?_keyLine h hdotted hnew]
    exact if_pos hlength

/-- **Lines of new keys are read one after the other.** -/
theorem lines?_keyLines {entries : List KeyEntry} (hlegible : ∀ e ∈ entries, e.Legible)
    (hdotted : d.current.origin ≠ .dotted)
    (hnew : (d.current.entries.map Prod.fst ++ entries.map KeyEntry.key).Nodup) :
    d.lines? (entries.flatMap KeyEntry.line) = some (entries.foldl add d) := by
  induction entries generalizing d with
  | nil =>
    rw [List.flatMap_nil, lines?]
    rfl
  | cons e entries ih =>
    obtain ⟨he, hentries⟩ := List.forall_mem_cons.1 hlegible
    have hget : d.current.get? e.key = none := by
      rw [Table.get?, List.lookup_eq_none_iff]
      intro old hold
      have hne : old.1 ≠ e.key := (List.nodup_append.1 hnew).2.2 old.1
        (List.mem_map_of_mem hold) e.key List.mem_cons_self
      simpa using hne.symm
    rw [List.flatMap_cons, lines?_keyLine he hdotted hget, List.foldl_cons]
    refine ih hentries hdotted ?_
    simpa [add] using hnew

theorem foldl_add (d : Document) (entries : List KeyEntry) :
    entries.foldl add d = { d with current := ⟨d.current.origin,
      d.current.entries ++ entries.map fun e => (e.key, e.value)⟩ } := by
  induction entries generalizing d with
  | nil => simp
  | cons e entries ih =>
    rw [List.foldl_cons, ih]
    simp [add]

end Document

/-- **A document of lines with different keys is read back** as the table of its keys. -/
theorem parse?_keyLines {entries : List KeyEntry} (hlegible : ∀ e ∈ entries, e.Legible)
    (hkeys : (entries.map KeyEntry.key).Nodup) :
    parse? (String.ofList (entries.flatMap KeyEntry.line)) =
      some ⟨.header, entries.map fun e => (e.key, e.value)⟩ := by
  have hmark : (entries.flatMap KeyEntry.line).head? ≠ some '\ufeff' := by
    cases entries with
    | nil => simp
    | cons e entries =>
      obtain ⟨k, ks, hkey, hk⟩ := (hlegible e List.mem_cons_self).bare.exists_toList_eq
      have hk' : k ≠ '\ufeff' := ne_of_test hk (by decide)
      simpa [KeyEntry.line, keyLine, hkey] using hk'
  rw [parse?, String.toList_ofList]
  simp only [hmark, if_false]
  rw [Document.lines?_keyLines hlegible (by decide) (by simpa [Document.empty] using hkeys),
    Document.foldl_add]
  rfl

end LoadOrder.Toml
