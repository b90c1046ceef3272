import LoadOrder.Analysis
import Mathlib.Data.List.Induction

/-!
# Who owns a path, and what a reference stands for

The symbol table of a project is filled file by file, and a later file takes over the paths that
it defines.  This file says what the finished table holds in terms of the scans alone:

* `SymbolTable.owner?_ofTrees` : what a table says that is filled from definition trees;
* `Analysis.owner?_ofScans` : the owner of a path is the last file that defines it;
* `Analysis.resolve?_ofScans` : a reference stands for the owner of the first of its candidates
  that some file defines, and for nothing when no file defines any of them.

The two directions of time do not get into each other's way: among the candidates the first one
counts, among the files that define it the last one.
-/

namespace LoadOrder

namespace DefinitionTree

theorem mem_flatten {t : DefinitionTree} {unit outer path owner : String} :
    (path, owner) ∈ t.flatten unit outer ↔ path ∈ t.paths outer ∧ owner = unit := by
  simp only [flatten, List.mem_map, Prod.mk.injEq]
  constructor
  · rintro ⟨p, hp, rfl, rfl⟩; exact ⟨hp, rfl⟩
  · rintro ⟨hp, rfl⟩; exact ⟨path, hp, rfl, rfl⟩

end DefinitionTree

namespace SymbolTable

/-! ### Owners after an insertion -/

theorem owner?_insert (t : SymbolTable) (path unit p : String) :
    (t.insert path unit).owner? p = if p = path then some unit else t.owner? p := by
  simp only [owner?, insert, NameMap.get?_alter]
  split_ifs <;> rfl

theorem owner?_foldl_insert (t : SymbolTable) (paths : List String) (unit p : String) :
    ((paths.map fun path => (path, unit)).foldl (fun t e => t.insert e.1 e.2) t).owner? p =
      if p ∈ paths then some unit else t.owner? p := by
  induction paths generalizing t with
  | nil => simp
  | cons path paths ih =>
    rw [List.map_cons, List.foldl_cons, ih, owner?_insert]
    by_cases hp : p ∈ paths
    · simp [hp]
    · simp [hp]

theorem owner?_addUnit (t : SymbolTable) (unit : String) (d : DefinitionTree) (p : String) :
    (t.addUnit unit d).owner? p = if p ∈ d.paths "" then some unit else t.owner? p :=
  owner?_foldl_insert t (d.paths "") unit p

/-- The table of some files, given by their names and definitions, one added after the other. -/
def ofTrees (files : List (String × DefinitionTree)) : SymbolTable :=
  files.foldl (fun t f => t.addUnit f.1 f.2) ∅

theorem ofTrees_concat (files : List (String × DefinitionTree)) (f : String × DefinitionTree) :
    ofTrees (files ++ [f]) = (ofTrees files).addUnit f.1 f.2 := by
  simp [ofTrees, List.foldl_append]

/-- **A path belongs to the last file that defines it.** -/
theorem owner?_ofTrees (files : List (String × DefinitionTree)) (p : String) :
    (ofTrees files).owner? p = (files.reverse.find? fun f => p ∈ f.2.paths "").map Prod.fst := by
  -- the last file is added last to the table, and it is the first that is asked on the right
  induction files using List.reverseRecOn with
  | nil => rfl
  | append_singleton files f ih =>
    rw [ofTrees_concat, owner?_addUnit, ih, List.reverse_append, List.reverse_singleton,
      List.singleton_append, List.find?_cons]
    by_cases hp : p ∈ f.2.paths "" <;> simp [hp]

/-! ### Resolving by the first candidate -/

theorem findSome?_map_eq {α β : Type} (f : α → Option β) (l : List α) :
    (l.findSome? fun x => (f x).map fun y => (x, y)).map Prod.snd =
      (l.find? fun x => (f x).isSome).bind f := by
  induction l with
  | nil => rfl
  | cons x l ih =>
    cases hx : f x with
    | none => simpa [hx] using ih
    | some y => simp [hx]

theorem resolve?_eq (t : SymbolTable) (r : Reference) :
    t.resolve? r = (r.candidates.find? fun path => (t.owner? path).isSome).bind t.owner? :=
  findSome?_map_eq t.owner? r.candidates

end SymbolTable

namespace Analysis

variable {scans : List (String × Findings)}

/-! ### What the scans say about owners -/

/-- The file with the name and the findings `s` defines a path. -/
def Defines (s : String × Findings) (path : String) : Prop :=
  (path, s.1) ∈ s.2.definitions.flatten s.1 ""

instance (s : String × Findings) (path : String) : Decidable (Defines s path) :=
  inferInstanceAs (Decidable (_ ∈ _))

/-- The last file that defines a path. -/
def lastDefiner? (scans : List (String × Findings)) (path : String) : Option String :=
  (scans.reverse.find? fun s => Defines s path).map Prod.fst

/-- The first candidate of a reference that some file defines. -/
def firstDefined? (scans : List (String × Findings)) (r : Reference) : Option String :=
  r.candidates.find? fun path => scans.any fun s => Defines s path

/-- The file that a reference stands for. -/
def target? (scans : List (String × Findings)) (r : Reference) : Option String :=
  (firstDefined? scans r).bind (lastDefiner? scans)

theorem defines_iff {s : String × Findings} {path : String} :
    Defines s path ↔ path ∈ s.2.definitions.paths "" := by
  simp [Defines, DefinitionTree.mem_flatten]

theorem isSome_lastDefiner? (path : String) :
    (lastDefiner? scans path).isSome = scans.any fun s => Defines s path := by
  rw [lastDefiner?, Option.isSome_map, Bool.eq_iff_iff, List.find?_isSome]
  simp

theorem exists_of_lastDefiner? {path v : String} (h : lastDefiner? scans path = some v) :
    ∃ s ∈ scans, s.1 = v ∧ Defines s path := by
  obtain ⟨s, hs, rfl⟩ := Option.map_eq_some_iff.1 h
  have hd := List.find?_some hs
  exact ⟨s, by simpa using List.mem_of_find?_eq_some hs, rfl, by simpa using hd⟩

theorem symbols_ofScans (scans : List (String × Findings)) :
    (ofScans scans).symbols =
      SymbolTable.ofTrees (scans.map fun s => (s.1, s.2.definitions)) := by
  rw [SymbolTable.ofTrees, List.foldl_map]
  rfl

/-- **The owner of a path is the last file that defines it.** -/
theorem owner?_ofScans (scans : List (String × Findings)) (path : String) :
    (ofScans scans).symbols.owner? path = lastDefiner? scans path := by
  rw [symbols_ofScans, SymbolTable.owner?_ofTrees, ← List.map_reverse, List.find?_map,
    Option.map_map]
  simp only [lastDefiner?, defines_iff]
  rfl

/-- **A reference stands for the last definer of its first defined candidate.** -/
theorem resolve?_ofScans (scans : List (String × Findings)) (r : Reference) :
    (ofScans scans).symbols.resolve? r = target? scans r := by
  have howner : (ofScans scans).symbols.owner? = lastDefiner? scans :=
    funext (owner?_ofScans scans)
  simp only [SymbolTable.resolve?_eq, howner, isSome_lastDefiner?]
  rfl

theorem exists_of_target? {r : Reference} {v : String} (h : target? scans r = some v) :
    ∃ s ∈ scans, s.1 = v := by
  obtain ⟨path, -, hv⟩ := Option.bind_eq_some_iff.1 h
  obtain ⟨s, hs, hsv, -⟩ := exists_of_lastDefiner? hv
  exact ⟨s, hs, hsv⟩

theorem target?_eq_none_iff {r : Reference} :
    target? scans r = none ↔ ∀ path ∈ r.candidates, ∀ s ∈ scans, ¬ Defines s path := by
  cases hf : firstDefined? scans r with
  | none =>
    simp only [target?, hf, Option.bind_none, true_iff]
    simpa [firstDefined?] using hf
  | some path =>
    have hany := List.find?_some hf
    have hsome : (lastDefiner? scans path).isSome := by rw [isSome_lastDefiner?]; exact hany
    obtain ⟨v, hv⟩ := Option.isSome_iff_exists.1 hsome
    simp only [target?, hf, Option.bind_some, hv, reduceCtorEq, false_iff, not_forall]
    obtain ⟨s, hs, -, hd⟩ := exists_of_lastDefiner? hv
    exact ⟨path, List.mem_of_find?_eq_some hf, s, hs, not_not_intro hd⟩

end Analysis

end LoadOrder
