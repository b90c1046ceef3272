import LoadOrder.Config
import LoadOrder.Proofs.Files.Writing
import LoadOrder.Proofs.Toml.Document

/-!
# Settings that were saved are loaded

Saving settings goes in steps: a file that is there has to be given up, the text has to be made,
and only then the file is written.  `Config.run_save` says for each way through these steps how the
files are afterwards.  With what is known of the text (`Config.parse?_render`) and of the files,
this gives `Config.save_reloads`: exactly when settings are saved, and that they are then loaded as
they were, whatever stands in their texts.
-/

namespace LoadOrder

namespace Config

variable {c : Config} {store : FileStore} {path : String} {place : List String}

/-! ### The text -/

/-- The settings as lines of a document. -/
def keyEntries (c : Config) : List Toml.KeyEntry :=
  [⟨"files", Toml.arrayText c.files, .array (c.files.map .string)⟩,
    ⟨"exclude", Toml.arrayText c.exclude, .array (c.exclude.map .string)⟩,
    ⟨"strict", (if c.strict then "true" else "false").toList, .boolean c.strict⟩,
    ⟨"workers", (toString c.workers).toList, .integer c.workers⟩,
    ⟨"ruby", Toml.quote c.ruby, .string c.ruby⟩]

theorem render_eq (c : Config) :
    c.render = String.ofList (c.keyEntries.flatMap Toml.KeyEntry.line) := by
  simp [render, keyEntries, Toml.KeyEntry.line]

theorem legible_of_mem_keyEntries (hworkers : c.workers ≤ Toml.integerMax) :
    ∀ e ∈ c.keyEntries, e.Legible := by
  simp only [keyEntries, List.forall_mem_cons, List.not_mem_nil, false_implies, implies_true,
    and_true]
  exact ⟨⟨(by decide : Toml.BareKey "files"), Toml.spells_arrayText c.files⟩,
    ⟨(by decide : Toml.BareKey "exclude"), Toml.spells_arrayText c.exclude⟩,
    ⟨(by decide : Toml.BareKey "strict"), Toml.spells_flag c.strict⟩,
    ⟨(by decide : Toml.BareKey "workers"), Toml.spells_toString hworkers⟩,
    ⟨(by decide : Toml.BareKey "ruby"), Toml.spells_quote c.ruby⟩⟩

theorem texts?_array (items : List String) :
    texts? (.array (items.map .string)) = some items := by
  show (items.map Toml.Value.string).mapM text? = some items
  induction items with
  | nil => rfl
  | cons item items ih =>
    rw [List.map_cons, List.mapM_cons, ih]
    rfl

/-- **The text of settings is read as these settings.** -/
theorem parse?_render (hworkers : c.workers ≤ Toml.integerMax) : parse? c.render = some c := by
  have htable := Toml.parse?_keyLines (legible_of_mem_keyEntries hworkers) (by simp [keyEntries])
  rw [parse?, render_eq, htable, Option.bind_some]
  have hfiles := texts?_array c.files
  have hexclude := texts?_array c.exclude
  simp [ofTable?, keyEntries, setting, Toml.Table.get?, List.lookup_cons, hfiles, hexclude, flag?,
    count?, text?]

/-! ### The file -/

theorem run_save (c : Config) (store : FileStore) (path : String) (force : Bool) :
    (c.save path force).run.run store =
      if store.contains path && !force then (.error (.present path), store)
      else
        match c.serialize with
        | .error e => (.error e, store)
        | .ok text =>
          match store.write path (Utf8.encode text) with
          | .error fault => (.error (.system fault), store)
          | .ok after => (.ok (), after) := by
  unfold save
  show StateT.run (ExceptT.run (ite ((store.contains path && !force) = true) _ _)) store = _
  by_cases hpresent : (store.contains path && !force) = true
  · rw [if_pos hpresent, if_pos hpresent]
    rfl
  · rw [if_neg hpresent, if_neg hpresent]
    cases c.serialize with
    | error e => rfl
    | ok text =>
      -- the file is written last, so a failure leaves the files as they were
      show StateT.run (ExceptT.run (do
        set (← ((store.write path (Utf8.encode text)).mapError .system :
          Except ConfigError FileStore)) : ExceptT ConfigError (StateM FileStore) Unit)) store = _
      cases hwrite : store.write path (Utf8.encode text) with
      | error fault => simp only [hwrite]; rfl
      | ok after => simp only [hwrite]; rfl

theorem load_of_readText (hcontains : store.contains path = true)
    (hread : store.readText path = .ok c.render) (hworkers : c.workers ≤ Toml.integerMax) :
    load store path = .ok (some c) := by
  rw [load, if_pos hcontains, hread]
  simp only [parse?_render hworkers]

theorem refuses_iff {force : Bool} (hplace : store.target path = .ok place) :
    (store.contains path && !force) = true ↔ ¬ (store.entry? place = none ∨ force = true) := by
  rw [← FileStore.contains_eq_false_iff hplace]
  cases store.contains path <;> cases force <;> decide

/-- **Settings are saved exactly when they may and can be, and then they are loaded as they were.**
The path must be one where a file can stand; whether there is one, and what is in it, is left open.
Without a file, or with leave to replace it, settings are saved unless they have more workers than
can be written.  If they are not saved, the files are as before. -/
theorem save_reloads (c : Config) (force : Bool) (hplace : store.target path = .ok place) :
    let result := (c.save path force).run.run store
    (result.1 = .ok () ↔
      (store.entry? place = none ∨ force = true) ∧ c.workers ≤ Nat.pow 2 63 - 1) ∧
    (result.1 = .ok () → load result.2 path = .ok (some c)) ∧
    (result.1 ≠ .ok () → result.2 = store) := by
  intro result
  have hresult : result = _ := run_save c store path force
  by_cases hrefused : (store.contains path && !force) = true
  · rw [if_pos hrefused] at hresult
    simp [hresult, (refuses_iff hplace).1 hrefused]
  rw [if_neg hrefused] at hresult
  have hmay : store.entry? place = none ∨ force = true :=
    not_not.1 (mt (refuses_iff hplace).2 hrefused)
  by_cases hworkers : Toml.integerMax < c.workers
  · have htext : c.serialize = .error .workersOutOfRange := if_pos hworkers
    have hmany : ¬ c.workers ≤ Nat.pow 2 63 - 1 := Nat.not_le.2 hworkers
    rw [htext] at hresult
    simp [hresult, hmany]
  · have htext : c.serialize = .ok c.render := if_neg hworkers
    have hfew : c.workers ≤ Nat.pow 2 63 - 1 := Nat.not_lt.1 hworkers
    obtain ⟨after, hwrite, hcontains, hread⟩ := FileStore.exists_write_eq_ok hplace c.render
    rw [htext] at hresult
    simp only [hwrite] at hresult
    refine ⟨?_, fun _ => ?_, fun hfailed => ?_⟩
    · simp [hresult, hmay, hfew]
    · rw [hresult]
      exact load_of_readText hcontains hread hfew
    · exact absurd (congrArg Prod.fst hresult) hfailed

/-- Settings with quotes, controls and line ends in their texts replace a file that is no text at
all; without leave, or with too many workers, that file stays. -/
theorem save_reloads_replaced :
    let store : FileStore := FileStore.empty.add "p/buildorder.toml" (.file [0x22, 0xFF])
    let path := "p/buildorder.toml"
    let c : Config := ⟨["a\"b\\", "c\n\td", "\x00\x7f"], ["'\"\"\""], true, 3, "r\r#]\n"⟩
    let many : Config := { workers := Nat.pow 2 63 }
    ((c.save path true).run.run store).1 = .ok () ∧
      load ((c.save path true).run.run store).2 path = .ok (some c) ∧
      ((c.save path false).run.run store).2 = store ∧
      ((many.save path true).run.run store).1 ≠ .ok () ∧
      ((many.save path true).run.run store).2 = store := by
  intro store path c many
  have hplace : store.target path = .ok ["p", "buildorder.toml"] := by decide
  have hthere : store.entry? ["p", "buildorder.toml"] ≠ none := by decide
  obtain ⟨hforced, hloaded, -⟩ := save_reloads c true hplace
  obtain ⟨hrefused, -, hkept⟩ := save_reloads c false hplace
  obtain ⟨hmany, -, hmanyKept⟩ := save_reloads many true hplace
  have hsaved := hforced.2 ⟨Or.inr rfl, by decide⟩
  have hfails : ((many.save path true).run.run store).1 ≠ .ok () :=
    fun h => absurd (hmany.1 h).2 (by decide)
  refine ⟨hsaved, hloaded hsaved, hkept fun h => ?_, hfails, hmanyKept hfails⟩
  exact (hrefused.1 h).1.elim hthere (by decide)

end Config

end LoadOrder
