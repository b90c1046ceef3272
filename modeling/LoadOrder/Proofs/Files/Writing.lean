import LoadOrder.Files.Store
import Mathlib.Data.List.Basic
import Mathlib.Tactic.SplitIfs

/-!
# A file that was written can be read

To read a path, all of it is followed to what is there.  To write to it, it is followed to the
directory above, and the last name need not be there.  `FileStore.Leads` says what the two have in
common.  Writing puts a file where there was no directory, and only directories are passed on the
way, so the way is the same afterwards (`FileStore.Leads.put`) and leads to what was written
(`FileStore.exists_write_eq_ok`).
-/

namespace LoadOrder

namespace FileStore

variable {store : FileStore} {path name : String} {place dir above target : List String}
  {entry : FileEntry} {bytes : List UInt8}

theorem entry?_put (hplace : place ≠ []) :
    FileStore.entry? (store.put target entry) place =
      if target = place then some entry else store.entry? place := by
  cases place with
  | nil => exact absurd rfl hplace
  | cons first rest => exact lookupEntry_setEntry (first :: rest) target entry store.entries

/-! ### Following a path -/

theorem follow_append {xs ys : List String} {next : FileEntry}
    (h : store.follow place entry xs = .ok (dir, next)) :
    store.follow place entry (xs ++ ys) = store.follow dir next ys := by
  fun_induction FileStore.follow store place entry xs with
  | case1 place entry =>
    cases h
    rfl
  | case2 => cases h
  | case3 place segment rest hstay ih =>
    rw [List.cons_append, follow, if_pos hstay]
    exact ih h
  | case4 => cases h
  | case5 place rest hstay hplace ih =>
    rw [List.cons_append, follow, if_neg hstay, if_pos rfl, if_neg hplace]
    exact ih h
  | case6 => cases h
  | case7 place segment rest hstay hup inner hinner ih =>
    simp only [List.cons_append, follow, if_neg hstay, if_neg hup, hinner]
    exact ih h

theorem eq_directory_of_follow {xs : List String}
    (h : store.follow place entry xs = .ok (dir, .directory)) : entry = .directory := by
  cases entry with
  | directory => rfl
  | file bytes => cases xs <;> simp [follow] at h

/-- A file that is put where there was no directory is on no way to a directory. -/
theorem follow_put {xs : List String} (hnot : store.entry? target ≠ some .directory)
    (h : store.follow place entry xs = .ok (dir, .directory)) :
    (store.put target (.file bytes)).follow place entry xs = .ok (dir, .directory) := by
  fun_induction FileStore.follow store place entry xs with
  | case1 => exact h
  | case2 => cases h
  | case3 place segment rest hstay ih =>
    rw [follow, if_pos hstay]
    exact ih h
  | case4 => cases h
  | case5 place rest hstay hplace ih =>
    rw [follow, if_neg hstay, if_pos rfl, if_neg hplace]
    exact ih h
  | case6 => cases h
  | case7 place segment rest hstay hup inner hinner ih =>
    obtain rfl := eq_directory_of_follow h
    have hne : target ≠ place ++ [segment] := by
      rintro rfl
      exact hnot hinner
    have hsame : FileStore.entry? (store.put target (.file bytes)) (place ++ [segment]) =
        some .directory := by
      rw [entry?_put (by simp), if_neg hne, hinner]
    simp only [follow, if_neg hstay, if_neg hup, hsame]
    exact ih h

/-! ### The way to a file -/

/-- The path goes along `above` to the directory at `dir`, and on to `name` inside it. -/
structure Leads (store : FileStore) (path : String) (above dir : List String) (name : String) :
    Prop where
  segments : Path.segments path = above ++ [name]
  relative : above.head? ≠ some ""
  plain : name ≠ "" ∧ name ≠ "." ∧ name ≠ ".."
  reached : store.follow [] .directory above = .ok (dir, .directory)

theorem Leads.find (h : store.Leads path above dir name) :
    store.find path =
      match store.entry? (dir ++ [name]) with
      | none => .error .notFound
      | some entry => .ok (dir ++ [name], entry) := by
  have hlast : store.follow dir .directory [name] =
      match store.entry? (dir ++ [name]) with
      | none => .error .notFound
      | some entry => .ok (dir ++ [name], entry) := by
    cases hentry : store.entry? (dir ++ [name]) <;>
      simp only [follow, h.plain, or_self, if_false, hentry]
  rw [← hlast, ← follow_append h.reached, FileStore.find, h.segments]
  split
  next rest hrest =>
    -- a path that starts with a slash has an empty first segment
    cases above with
    | nil => exact absurd (List.cons.inj hrest).1 h.plain.1
    | cons first others => exact absurd (congrArg some (List.cons.inj hrest).1) h.relative
  next => rfl

theorem Leads.put (h : store.Leads path above dir name)
    (hnot : store.entry? (dir ++ [name]) ≠ some .directory) (bytes : List UInt8) :
    (store.put (dir ++ [name]) (.file bytes)).Leads path above dir name :=
  { h with reached := follow_put hnot h.reached }

theorem exists_leads_of_target (h : store.target path = .ok place) :
    ∃ above dir name, place = dir ++ [name] ∧ store.Leads path above dir name ∧
      store.entry? place ≠ some .directory := by
  simp only [FileStore.target] at h
  split at h
  · cases h
  rename_i name above hsegments
  split_ifs at h with hroot
  split at h
  · cases h
  · cases h
  rename_i dir hreached
  split_ifs at h with hrefused
  cases h
  simp only [not_or] at hrefused
  obtain ⟨hslash, hdot, hdots, hnot⟩ := hrefused
  -- without a slash at the end, no segments are dropped there
  have hall : (Path.segments path).reverse = name :: above := by
    cases hrev : (Path.segments path).reverse with
    | nil => simp [hrev] at hsegments
    | cons last rest =>
      have hlast : last ≠ "" := by simpa [hrev] using hslash
      simpa [hrev, hlast] using hsegments
  have hname : name ≠ "" := by simpa [hall] using hslash
  refine ⟨above.reverse, dir, name, rfl, ⟨?_, ?_, ⟨hname, hdot, hdots⟩, hreached⟩, hnot⟩
  · rw [← List.reverse_cons, ← hall, List.reverse_reverse]
  · rwa [List.head?_reverse]

/-! ### Reading what was written -/

theorem contains_eq_false_iff (h : store.target path = .ok place) :
    store.contains path = false ↔ store.entry? place = none := by
  obtain ⟨above, dir, name, rfl, hleads, -⟩ := exists_leads_of_target h
  rw [contains, hleads.find]
  cases store.entry? (dir ++ [name]) <;> simp [Except.isOk, Except.toBool]

/-- **A text that is written to a file is read from it.** -/
theorem exists_write_eq_ok (h : store.target path = .ok place) (text : String) :
    ∃ after, store.write path (Utf8.encode text) = .ok after ∧ after.contains path = true ∧
      after.readText path = .ok text := by
  obtain ⟨above, dir, name, rfl, hleads, hnot⟩ := exists_leads_of_target h
  have hentry :
      FileStore.entry? (store.put (dir ++ [name]) (.file (Utf8.encode text))) (dir ++ [name]) =
      some (.file (Utf8.encode text)) := by
    rw [entry?_put (by simp), if_pos rfl]
  have hfind := (hleads.put hnot (Utf8.encode text)).find
  rw [hentry] at hfind
  refine ⟨store.put (dir ++ [name]) (.file (Utf8.encode text)), ?_, ?_, ?_⟩
  · rw [FileStore.write, h]
    rfl
  · rw [contains, hfind]
    rfl
  · rw [readText, read, hfind]
    simp [Bind.bind, Except.bind, Utf8.decode_encode]

end FileStore

end LoadOrder
