import LoadOrder.Proofs.Definition.Paths
import LoadOrder.Proofs.Resolution
import Mathlib.Data.List.Find

/-!
# Looking up names in the definition trees

The symbol table knows constants by the strings of their paths, and a reference is resolved by
trying strings.  The same can be said without any string: a reference inside some namespaces stands
for the path that follows the first `k` of them and then its own name, for the least `k` for which
any file has that path, and the file meant is the last one that has it.

* `Reference.candidates_eq` : the strings that are tried are those of these paths, in this order;
* `SymbolTable.resolve?_agrees_with_walk` : both ways of looking up agree, if no name has a colon.

With colons in names they need not agree: the string of a path does then not determine the path.
-/

namespace LoadOrder

namespace Reference

/-- Cuts a text at every double colon. -/
def cut : List Char → List (List Char)
  | [] => [[]]
  | ':' :: ':' :: rest => [] :: cut rest
  | c :: rest =>
    match cut rest with
    | [] => [[c]]
    | segment :: others => (c :: segment) :: others

/-- The names that make up a qualified name. -/
def segments (name : String) : List String := (cut name.toList).map String.ofList

/-- The path that a reference may stand for inside the first `k` of its namespaces. -/
def pathWithin (r : Reference) (k : ℕ) : List String := r.scope.take k ++ segments r.name

theorem flatMap_cut (cs : List Char) :
    (cut cs).flatMap (fun segment => ':' :: ':' :: segment) = ':' :: ':' :: cs := by
  fun_induction cut cs with
  | case1 => rfl
  | case2 rest ih => simp [ih]
  | case3 c rest _ hcut ih => simp [hcut] at ih
  | case4 c rest _ segment others hcut ih =>
    rw [hcut] at ih
    simpa using ih

-- Of three colons in a row the first two divide.
example : segments "A:::B" = ["A", ":B"] := by decide

theorem segments_ne_nil (name : String) : segments name ≠ [] := by
  intro h
  have hcut : cut name.toList = [] := List.map_eq_nil_iff.1 h
  have := flatMap_cut name.toList
  simp [hcut] at this

theorem qualify_eq_pathText (outer name : String) :
    qualify outer name = pathText outer (segments name) := by
  refine String.toList_injective ?_
  rw [toList_pathText, segments, List.flatMap_map]
  simp only [String.toList_ofList, flatMap_cut]
  simp [qualify]

theorem pathWithin_ne_nil (r : Reference) (k : ℕ) : r.pathWithin k ≠ [] := by
  simp [pathWithin, segments_ne_nil]

theorem candidatesFrom_eq (name outer : String) (scope : List String) :
    candidatesFrom name outer scope =
      (List.range (scope.length + 1)).map fun k =>
        qualify (pathText outer (scope.take k)) name := by
  induction scope generalizing outer with
  | nil => rfl
  | cons s scope ih =>
    have hrange := List.range_succ_eq_map (n := scope.length + 1)
    rw [candidatesFrom, ih, List.length_cons, hrange, List.map_cons, List.map_map]
    rfl

/-- **The strings that are tried for a reference** are those of the paths that it may stand for. -/
theorem candidates_eq (r : Reference) :
    r.candidates =
      (List.range (r.scope.length + 1)).map fun k => pathText "" (r.pathWithin k) := by
  rw [candidates, candidatesFrom_eq]
  refine List.map_congr_left fun k _ => ?_
  rw [qualify_eq_pathText, pathWithin, pathText, pathText, pathText, List.foldl_append]

end Reference

namespace SymbolTable

variable {files : List (String × DefinitionTree)} {path : List String} {v : String}

/-! ### The last file with a path -/

/-- The last of the files whose trees have the path. -/
def lastWith? (files : List (String × DefinitionTree)) (path : List String) : Option String :=
  (files.reverse.find? fun f => f.2.has path).map Prod.fst

/-- `v` is the last of the files whose trees have the path. -/
def IsLastWith (files : List (String × DefinitionTree)) (path : List String) (v : String) : Prop :=
  ∃ before tree after, files = before ++ (v, tree) :: after ∧ tree.has path = true ∧
    ∀ f ∈ after, f.2.has path = false

theorem lastWith?_eq_some_iff : lastWith? files path = some v ↔ IsLastWith files path v := by
  simp only [lastWith?, Option.map_eq_some_iff, List.find?_eq_some_iff_append, IsLastWith]
  constructor
  · rintro ⟨⟨_, tree⟩, ⟨hhas, after, before, hfiles, hafter⟩, rfl⟩
    refine ⟨before.reverse, tree, after.reverse, ?_, hhas, by simpa using hafter⟩
    simpa using congrArg List.reverse hfiles
  · rintro ⟨before, tree, after, rfl, hhas, hafter⟩
    refine ⟨(v, tree), ⟨hhas, after.reverse, before.reverse, by simp, ?_⟩, rfl⟩
    simpa using hafter

theorem lastWith?_eq_none_iff :
    lastWith? files path = none ↔ ∀ f ∈ files, f.2.has path = false := by
  simp [lastWith?]

/-- The owner of the string of a path is the last file that has the path. -/
theorem owner?_pathText (hfiles : ∀ f ∈ files, f.2.AllColonFree)
    (hpath : ∀ name ∈ path, ColonFree name) (hne : path ≠ []) :
    (ofTrees files).owner? (pathText "" path) = lastWith? files path := by
  have hsame : ∀ f ∈ files.reverse,
      decide (pathText "" path ∈ f.2.paths "") = f.2.has path := by
    intro f hf
    rw [Bool.eq_iff_iff, decide_eq_true_eq]
    exact DefinitionTree.pathText_mem_paths_iff (hfiles f (List.mem_reverse.1 hf)) hpath hne
  rw [owner?_ofTrees, lastWith?]
  exact congrArg (Option.map Prod.fst) (List.find?_congr hsame)

/-! ### The least number of namespaces -/

theorem find?_range_bind_eq_some_iff {f : ℕ → Option String} {n : ℕ} :
    ((List.range n).find? fun k => (f k).isSome).bind f = some v ↔
      ∃ k < n, f k = some v ∧ ∀ j < k, f j = none := by
  simp only [Option.bind_eq_some_iff, List.find?_range_eq_some, List.mem_range]
  constructor
  · rintro ⟨k, ⟨-, hk, hleast⟩, hv⟩
    exact ⟨k, hk, hv, by simpa using hleast⟩
  · rintro ⟨k, hk, hv, hleast⟩
    exact ⟨k, ⟨by simp [hv], hk, by simpa using hleast⟩, hv⟩

theorem find?_range_bind_eq_none_iff {f : ℕ → Option String} {n : ℕ} :
    ((List.range n).find? fun k => (f k).isSome).bind f = none ↔ ∀ k < n, f k = none := by
  cases hfind : (List.range n).find? fun k => (f k).isSome with
  | none => simpa using hfind
  | some k =>
    obtain ⟨hk, hlt, -⟩ := List.find?_range_eq_some.1 hfind
    rw [Option.bind_some]
    refine ⟨fun h => by simp [h] at hk, fun h => h k (List.mem_range.1 hlt)⟩

theorem resolve?_ofTrees {r : Reference} (hfiles : ∀ f ∈ files, f.2.AllColonFree)
    (hr : ∀ k, ∀ name ∈ r.pathWithin k, ColonFree name) :
    (ofTrees files).resolve? r =
      ((List.range (r.scope.length + 1)).find? fun k =>
        (lastWith? files (r.pathWithin k)).isSome).bind fun k =>
          lastWith? files (r.pathWithin k) := by
  have howner : ∀ k, (ofTrees files).owner? (pathText "" (r.pathWithin k)) =
      lastWith? files (r.pathWithin k) :=
    fun k => owner?_pathText hfiles (hr k) (r.pathWithin_ne_nil k)
  rw [resolve?_eq, Reference.candidates_eq, List.find?_map, Option.bind_map]
  simp only [Function.comp_def, howner]

/-- **Resolving by strings agrees with going down the trees.**  A reference stands for the last file
with the path that it has inside the first `k` of its namespaces, where `k` is the least number for
which any file has that path, and for nothing if there is no such number.  A reference from the
root has no namespaces, so that `k` is zero. -/
theorem resolve?_agrees_with_walk (files : List (String × DefinitionTree)) (r : Reference)
    (hfiles : ∀ f ∈ files, f.2.AllColonFree) (hscope : ∀ s ∈ r.scope, ColonFree s)
    (hname : ∀ s ∈ Reference.segments r.name, ColonFree s) :
    (∀ v, (ofTrees files).resolve? r = some v ↔
      ∃ k ≤ r.scope.length, IsLastWith files (r.pathWithin k) v ∧
        ∀ j < k, ∀ f ∈ files, f.2.has (r.pathWithin j) = false) ∧
    ((ofTrees files).resolve? r = none ↔
      ∀ k ≤ r.scope.length, ∀ f ∈ files, f.2.has (r.pathWithin k) = false) := by
  have hr : ∀ k, ∀ name ∈ r.pathWithin k, ColonFree name := by
    intro k name hmem
    rcases List.mem_append.1 hmem with hmem | hmem
    · exact hscope name (List.mem_of_mem_take hmem)
    · exact hname name hmem
  rw [resolve?_ofTrees hfiles hr]
  refine ⟨fun v => ?_, ?_⟩
  · simp only [find?_range_bind_eq_some_iff, lastWith?_eq_some_iff, lastWith?_eq_none_iff,
      Nat.lt_succ_iff]
  · simp only [find?_range_bind_eq_none_iff, lastWith?_eq_none_iff, Nat.lt_succ_iff]

/-- `Inner::Limit` inside `Outer`: at the top level there is an `Inner`, but without a `Limit`, and
below `Outer` two files define it. -/
theorem resolve?_agrees_with_walk_nested :
    let limit : DefinitionTree := .insert ∅ "Inner" (.insertLeaf ∅ "Limit")
    let files := [("a", .insert ∅ "Outer" limit), ("b", .insert ∅ "Outer" limit),
      ("c", .insert ∅ "Inner" (.insertLeaf ∅ "Other"))]
    let r : Reference := .lexical "Inner::Limit" ["Outer"]
    (∀ f ∈ files, f.2.AllColonFree) ∧ (∀ s ∈ r.scope, ColonFree s) ∧
      (∀ s ∈ Reference.segments r.name, ColonFree s) ∧ (ofTrees files).resolve? r = some "b" := by
  intro limit files r
  have hfiles : ∀ f ∈ files, f.2.AllColonFree := by decide
  have hscope : ∀ s ∈ r.scope, ColonFree s := by decide
  have hname : ∀ s ∈ Reference.segments r.name, ColonFree s := by decide
  refine ⟨hfiles, hscope, hname,
    ((resolve?_agrees_with_walk files r hfiles hscope hname).1 "b").2 ?_⟩
  exact ⟨1, by decide, ⟨[_], _, [_], rfl, by decide, by decide⟩, by decide⟩

-- A name with colons is found under the string of a path that the tree does not have.
example :
    let tree : DefinitionTree := .insertLeaf ∅ "A::B"
    (ofTrees [("a", tree)]).resolve? (.root "A::B") = some "a" ∧ tree.has ["A", "B"] = false := by
  decide

end SymbolTable

end LoadOrder
