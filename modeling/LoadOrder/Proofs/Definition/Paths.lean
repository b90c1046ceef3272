import LoadOrder.Definition.Tree
import Mathlib.Data.List.Nodup

/-!
# Paths of a definition tree

A path is a list of names, and a tree has it when one can go down along it, name by name.  The
library also writes a path as one string, `::A::B`, and a tree as the list of these strings.  This
file says when the two views are the same:

* `Forest.mem_pathList` and `Forest.pairwise_pathList` : the paths of a forest can be listed, in
  increasing order and hence each once;
* `Forest.mem_flatten_iff` : the strings of a tree are those of its paths;
* `pathText_injective` : no two paths have the same string, as long as their names have no colon;
* `DefinitionTree.pathText_mem_paths_iff` : hence, for such names, the string of a path is among
  those of a tree exactly when the tree has the path.

Names may be empty; a colon is all that has to be excluded.
-/

namespace LoadOrder

/-- The string of a path, seen from `outer`. -/
def pathText (outer : String) (path : List String) : String := path.foldl qualify outer

/-- A name without a colon. -/
def ColonFree (name : String) : Prop := ':' ∉ name.toList

instance (name : String) : Decidable (ColonFree name) := inferInstanceAs (Decidable (_ ∉ _))

/-! ### Going down along a path -/

namespace Forest

variable {f : Forest} {join : String → String → String} {outer p : String}

/-- The forest below a path. -/
def walk? : List String → Forest → Option Forest
  | [], f => some f
  | name :: path, f => (f.get? name).bind (walk? path)

/-- All names, at every level, satisfy `P`. -/
def AllNames (P : String → Prop) : Forest → Prop
  | nil => True
  | entry name nested rest => P name ∧ nested.AllNames P ∧ rest.AllNames P

instance decidableAllNames (P : String → Prop) [DecidablePred P] :
    (f : Forest) → Decidable (f.AllNames P)
  | nil => inferInstanceAs (Decidable True)
  | entry name nested rest =>
    have := decidableAllNames P nested
    have := decidableAllNames P rest
    inferInstanceAs (Decidable (P name ∧ nested.AllNames P ∧ rest.AllNames P))

theorem mem_names_of_get? {name : String} {g : Forest} (h : f.get? name = some g) :
    name ∈ f.names := by
  induction f with
  | nil => simp [get?] at h
  | entry other nested rest _ ih =>
    simp only [get?] at h
    split at h
    · rename_i heq; exact heq ▸ List.mem_cons_self
    · exact List.mem_cons_of_mem _ (ih h)

theorem AllNames.of_get? {P : String → Prop} {name : String} {g : Forest} (hf : f.AllNames P)
    (h : f.get? name = some g) : P name ∧ g.AllNames P := by
  induction f with
  | nil => simp [get?] at h
  | entry other nested rest _ ih =>
    obtain ⟨hother, hnested, hrest⟩ := hf
    simp only [get?] at h
    split at h
    · rename_i heq
      cases h
      exact ⟨heq ▸ hother, hnested⟩
    · exact ih hrest h

theorem AllNames.of_walk? {P : String → Prop} {path : List String} (hf : f.AllNames P)
    (h : (f.walk? path).isSome) : ∀ name ∈ path, P name := by
  induction path generalizing f with
  | nil => simp
  | cons name path ih =>
    simp only [walk?] at h
    cases hget : f.get? name with
    | none => simp [hget] at h
    | some g =>
      obtain ⟨hname, hg⟩ := hf.of_get? hget
      rw [hget, Option.bind_some] at h
      exact List.forall_mem_cons.2 ⟨hname, ih hg h⟩

theorem walk?_entry_of_ne {name other : String} {nested rest : Forest} {path : List String}
    (h : name ≠ other) :
    (entry other nested rest).walk? (name :: path) = rest.walk? (name :: path) := by
  simp [walk?, get?, h]

theorem Sorted.lt_of_walk?_rest {name other : String} {nested rest : Forest} {path : List String}
    (hf : (entry other nested rest).Sorted) (h : (rest.walk? (name :: path)).isSome) :
    other < name := by
  cases hget : rest.get? name with
  | none => simp [walk?, hget] at h
  | some g => exact hf.1 name (mem_names_of_get? hget)

theorem Sorted.ne_of_walk?_rest {name other : String} {nested rest : Forest} {path : List String}
    (hf : (entry other nested rest).Sorted) (h : (rest.walk? (name :: path)).isSome) :
    name ≠ other := by
  rintro rfl
  exact String.lt_irrefl name (hf.lt_of_walk?_rest h)

/-- The paths of a forest, parents before what they hold. -/
def pathList : Forest → List (List String)
  | nil => []
  | entry name nested rest => [name] :: (nested.pathList.map (name :: ·) ++ rest.pathList)

theorem length_pathList (f : Forest) : f.pathList.length = f.total := by
  induction f with
  | nil => rfl
  | entry name nested rest ihNested ihRest =>
    simp only [pathList, total, List.length_cons, List.length_append, List.length_map, ihNested,
      ihRest]
    omega

/-- **The paths of a forest are those that one can go down along.** -/
theorem mem_pathList (hf : f.Sorted) {path : List String} :
    path ∈ f.pathList ↔ path ≠ [] ∧ (f.walk? path).isSome := by
  induction f generalizing path with
  | nil =>
    cases path <;> simp [pathList, walk?, get?]
  | entry other nested rest ihNested ihRest =>
    simp only [pathList, List.mem_cons, List.mem_append, List.mem_map, ihNested hf.2.1,
      ihRest hf.2.2]
    constructor
    · rintro (rfl | ⟨below, ⟨-, h⟩, rfl⟩ | ⟨hne, h⟩)
      · simp [walk?, get?]
      · exact ⟨by simp, by simpa [walk?, get?] using h⟩
      · obtain ⟨name, path, rfl⟩ := List.exists_cons_of_ne_nil hne
        exact ⟨hne, (walk?_entry_of_ne (hf.ne_of_walk?_rest h)).symm ▸ h⟩
    · rintro ⟨hne, h⟩
      obtain ⟨name, path, rfl⟩ := List.exists_cons_of_ne_nil hne
      by_cases hname : name = other
      · subst hname
        simp only [walk?, get?, if_pos, Option.bind_some] at h
        cases path with
        | nil => exact Or.inl rfl
        | cons next path => exact Or.inr (Or.inl ⟨next :: path, ⟨by simp, h⟩, rfl⟩)
      · rw [walk?_entry_of_ne hname] at h
        exact Or.inr (Or.inr ⟨hne, h⟩)

/-- **The paths are listed in increasing order**, compared name by name, with a path before those
that go on where it ends. -/
theorem pairwise_pathList (hf : f.Sorted) : f.pathList.Pairwise (List.Lex (· < ·)) := by
  induction f with
  | nil => exact List.Pairwise.nil
  | entry name nested rest ihNested ihRest =>
    have hnested : (nested.pathList.map (name :: ·)).Pairwise (List.Lex (· < ·)) :=
      List.pairwise_map.2 ((ihNested hf.2.1).imp List.Lex.cons)
    -- the paths of the rest start with later names
    have hrest : ∀ below, ∀ path ∈ rest.pathList, List.Lex (· < ·) (name :: below) path := by
      intro below path hpath
      obtain ⟨hne, hwalk⟩ := (mem_pathList hf.2.2).1 hpath
      obtain ⟨other, path, rfl⟩ := List.exists_cons_of_ne_nil hne
      exact List.Lex.rel (hf.lt_of_walk?_rest hwalk)
    refine List.pairwise_cons.2 ⟨fun path hpath => ?_,
      List.pairwise_append.2 ⟨hnested, ihRest hf.2.2, fun path hpath => ?_⟩⟩
    · rcases List.mem_append.1 hpath with hpath | hpath
      · obtain ⟨below, hbelow, rfl⟩ := List.mem_map.1 hpath
        obtain ⟨next, below, rfl⟩ := List.exists_cons_of_ne_nil ((mem_pathList hf.2.1).1 hbelow).1
        exact List.Lex.cons List.Lex.nil
      · exact hrest [] path hpath
    · obtain ⟨below, -, rfl⟩ := List.mem_map.1 hpath
      exact hrest below

theorem nodup_pathList (hf : f.Sorted) : f.pathList.Nodup := by
  refine (pairwise_pathList hf).imp ?_
  rintro path _ hlt rfl
  exact List.lex_irrefl String.lt_irrefl path hlt

theorem flatten_eq (f : Forest) (outer : String) :
    f.flatten join outer = f.pathList.map (List.foldl join outer) := by
  induction f generalizing outer with
  | nil => rfl
  | entry name nested rest ihNested ihRest =>
    simp only [flatten, pathList, List.map_cons, List.map_append, List.map_map, ihNested, ihRest]
    rfl

/-- **The strings of a forest are those of its paths.** -/
theorem mem_flatten_iff (hf : f.Sorted) :
    p ∈ f.flatten join outer ↔
      ∃ path, path ≠ [] ∧ (f.walk? path).isSome ∧ p = path.foldl join outer := by
  rw [flatten_eq, List.mem_map]
  simp only [mem_pathList hf, and_assoc, eq_comm]

end Forest

/-! ### The string of a path -/

theorem toList_pathText (outer : String) (path : List String) :
    (pathText outer path).toList =
      outer.toList ++ path.flatMap fun name => ':' :: ':' :: name.toList := by
  induction path generalizing outer with
  | nil => simp [pathText]
  | cons name path ih =>
    show (pathText (qualify outer name) path).toList = _
    rw [ih]
    simp [qualify]

theorem pathText_eq_intercalate (first : String) (names : List String) :
    pathText first names = "::".intercalate (first :: names) := by
  induction names generalizing first with
  | nil => rfl
  | cons name names ih => exact ih (qualify first name)

/-- A name without a colon can be told from what follows it in the string of a path. -/
theorem toList_eq_takeWhile {name : String} (h : ColonFree name) (path : List String) :
    (name.toList ++ path.flatMap fun n => ':' :: ':' :: n.toList).takeWhile (· ≠ ':') =
      name.toList := by
  have hname : ∀ c ∈ name.toList, decide (c ≠ ':') = true := by
    intro c hc
    rw [decide_eq_true_eq]
    rintro rfl
    exact h hc
  rw [List.takeWhile_append_of_pos hname]
  cases path <;> simp

/-- **No two paths have the same string**, as long as their names have no colon. -/
theorem pathText_injective {outer : String} {p q : List String} (hp : ∀ name ∈ p, ColonFree name)
    (hq : ∀ name ∈ q, ColonFree name) (h : pathText outer p = pathText outer q) : p = q := by
  have htext : (p.flatMap fun name => ':' :: ':' :: name.toList) =
      q.flatMap fun name => ':' :: ':' :: name.toList := by
    have := congrArg String.toList h
    rwa [toList_pathText, toList_pathText, List.append_right_inj] at this
  clear h
  induction p generalizing q with
  | nil =>
    cases q with
    | nil => rfl
    | cons name q => simp at htext
  | cons m p ih =>
    cases q with
    | nil => simp at htext
    | cons n q =>
      rw [List.forall_mem_cons] at hp hq
      simp only [List.flatMap_cons, List.cons_append, List.cons.injEq, true_and] at htext
      -- the first names are what stands before the next colon
      have hmn : m.toList = n.toList := by
        rw [← toList_eq_takeWhile hp.1 p, htext, toList_eq_takeWhile hq.1 q]
      obtain rfl := String.toList_injective hmn
      rw [ih hp.2 hq.2 (List.append_cancel_left htext)]

namespace DefinitionTree

variable {t : DefinitionTree} {path : List String}

/-- What the tree holds below a path, found by going down name by name. -/
def walk? (t : DefinitionTree) : List String → Option DefinitionTree
  | [] => some t
  | name :: path => (t.get? name).bind (·.walk? path)

/-- Can one go down along the path? -/
def has (t : DefinitionTree) (path : List String) : Bool := (t.walk? path).isSome

/-- No name of the tree, at any level, has a colon. -/
def AllColonFree (t : DefinitionTree) : Prop := t.forest.AllNames ColonFree

instance (t : DefinitionTree) : Decidable t.AllColonFree :=
  inferInstanceAs (Decidable (t.forest.AllNames ColonFree))

theorem forest_get? (name : String) : (t.get? name).map forest = t.forest.get? name := by
  rw [get?, Option.map_map]
  exact Option.attach_map_subtype_val _

theorem forest_walk? (t : DefinitionTree) (path : List String) :
    (t.walk? path).map forest = t.forest.walk? path := by
  induction path generalizing t with
  | nil => rfl
  | cons name path ih =>
    rw [walk?, Forest.walk?, ← forest_get?]
    cases t.get? name with
    | none => rfl
    | some below => exact ih below

theorem has_iff : t.has path = true ↔ (t.forest.walk? path).isSome := by
  rw [has, ← forest_walk?, Option.isSome_map]

theorem mem_pathList_iff : path ∈ t.forest.pathList ↔ path ≠ [] ∧ t.has path = true := by
  rw [Forest.mem_pathList t.sorted, has_iff]

/-- **The strings of a tree are those of its paths.** -/
theorem mem_paths_iff {outer p : String} :
    p ∈ t.paths outer ↔ ∃ path, path ≠ [] ∧ t.has path = true ∧ p = pathText outer path := by
  simp only [paths, Forest.mem_flatten_iff t.sorted, has_iff]
  rfl

/-- **Looking for the string of a path is going down along the path**, if no name has a colon. -/
theorem pathText_mem_paths_iff {outer : String} (ht : t.AllColonFree)
    (hpath : ∀ name ∈ path, ColonFree name) (hne : path ≠ []) :
    pathText outer path ∈ t.paths outer ↔ t.has path = true := by
  rw [mem_paths_iff]
  constructor
  · rintro ⟨other, -, hother, htext⟩
    have hnames : ∀ name ∈ other, ColonFree name := ht.of_walk? (has_iff.1 hother)
    rwa [pathText_injective hpath hnames htext]
  · exact fun h => ⟨path, hne, h, rfl⟩

end DefinitionTree

end LoadOrder
