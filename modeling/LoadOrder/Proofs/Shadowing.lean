import LoadOrder.Proofs.Resolution
import Mathlib.Data.List.Basic

/-!
# What one more definition changes

A reference is resolved by trying its candidates one after the other, up to the first that is in the
table.  Entering one more path can therefore change what a reference stands for only if the path is
tried, that is, if it is a candidate no later than the one that was found; and then it is the new
path that the reference stands for.  Paths that come later, or are no candidates, change nothing.

* `Reference.nodup_candidates` : the candidates of a reference are different from each other, since
  each is longer than the one before; so the place of a candidate is well defined.
* `SymbolTable.resolve_insert_exact` : what becomes of a reference when a path is entered.

With the candidates cut at the new path, the part before it has the same owners in both tables, and
all depends on whether something is found there (`SymbolTable.tries_iff`).
-/

namespace LoadOrder

namespace Reference

theorem length_qualify (outer name : String) :
    (qualify outer name).length = outer.length + 2 + name.length := by
  rw [qualify, String.length_append, String.length_append]
  rfl

theorem length_le_of_mem_candidatesFrom {name outer path : String} {scope : List String}
    (h : path ∈ candidatesFrom name outer scope) :
    outer.length + 2 + name.length ≤ path.length := by
  induction scope generalizing outer with
  | nil =>
    obtain rfl := List.mem_singleton.1 h
    exact Nat.le_of_eq (length_qualify outer name).symm
  | cons s scope ih =>
    rcases List.mem_cons.1 h with rfl | h
    · exact Nat.le_of_eq (length_qualify outer name).symm
    · have hinner := ih h
      rw [length_qualify] at hinner
      omega

theorem pairwise_length_candidatesFrom (name outer : String) (scope : List String) :
    (candidatesFrom name outer scope).Pairwise fun p q => p.length < q.length := by
  induction scope generalizing outer with
  | nil => exact List.pairwise_singleton _ _
  | cons s scope ih =>
    refine List.pairwise_cons.2 ⟨fun path hpath => ?_, ih (qualify outer s)⟩
    have hlength := length_le_of_mem_candidatesFrom hpath
    rw [length_qualify] at hlength ⊢
    omega

/-- **The candidates of a reference are different from each other.** -/
theorem nodup_candidates (r : Reference) : r.candidates.Nodup := by
  refine (pairwise_length_candidatesFrom r.name "" r.scope).imp fun hlt heq => ?_
  exact Nat.lt_irrefl _ (heq ▸ hlt)

end Reference

namespace SymbolTable

variable {t : SymbolTable} {r : Reference} {p u : String} {before after paths : List String}

/-! ### Looking up candidates -/

/-- The first of the paths that is in the table, with its owner. -/
def firstOwned? (t : SymbolTable) (paths : List String) : Option (String × String) :=
  paths.findSome? fun path => (t.owner? path).map fun owner => (path, owner)

theorem firstOwned?_cons (t : SymbolTable) (path : String) (paths : List String) :
    t.firstOwned? (path :: paths) =
      ((t.owner? path).map fun owner => (path, owner)).or (t.firstOwned? paths) := by
  rw [firstOwned?, List.findSome?_cons]
  cases t.owner? path <;> rfl

theorem firstOwned?_append : t.firstOwned? (before ++ after) =
    (t.firstOwned? before).or (t.firstOwned? after) :=
  List.findSome?_append

theorem firstOwned?_eq_some {path owner : String} (h : t.firstOwned? paths = some (path, owner)) :
    path ∈ paths ∧ t.owner? path = some owner := by
  obtain ⟨q, hq, hfound⟩ := List.exists_of_findSome?_eq_some h
  obtain ⟨v, hv, heq⟩ := Option.map_eq_some_iff.1 hfound
  cases heq
  exact ⟨hq, hv⟩

theorem firstOwned?_eq_none (h : t.firstOwned? paths = none) :
    ∀ path ∈ paths, t.owner? path = none := by
  simpa [firstOwned?] using h

theorem firstOwned?_insert_of_not_mem (h : p ∉ paths) :
    (t.insert p u).firstOwned? paths = t.firstOwned? paths := by
  induction paths with
  | nil => rfl
  | cons path paths ih =>
    rw [List.mem_cons, not_or] at h
    rw [firstOwned?_cons, firstOwned?_cons, owner?_insert, if_neg (Ne.symm h.1), ih h.2]

theorem firstOwned?_insert_cons (t : SymbolTable) (p u : String) (after : List String) :
    (t.insert p u).firstOwned? (p :: after) = some (p, u) := by
  rw [firstOwned?_cons, owner?_insert, if_pos rfl]
  rfl

/-! ### The paths that are tried -/

/-- The path is tried when the reference is resolved: it is a candidate, at a place not after the
one of the candidate that is found, if any is found. -/
def Tries (t : SymbolTable) (r : Reference) (p : String) : Prop :=
  p ∈ r.candidates ∧ ∀ path owner, t.resolvePath? r = some (path, owner) →
    r.candidates.idxOf p ≤ r.candidates.idxOf path

theorem tries_iff (hsplit : r.candidates = before ++ p :: after) (hp : p ∉ before) :
    t.Tries r p ↔ t.firstOwned? before = none := by
  have hindex : r.candidates.idxOf p = before.length := by
    rw [hsplit, List.idxOf_append_of_notMem hp, List.idxOf_cons_self, Nat.add_zero]
  have hresolve : t.resolvePath? r = (t.firstOwned? before).or (t.firstOwned? (p :: after)) := by
    rw [← firstOwned?_append, ← hsplit]
    rfl
  constructor
  · rintro ⟨-, hle⟩
    cases hbefore : t.firstOwned? before with
    | none => rfl
    | some found =>
      obtain ⟨path, owner⟩ := found
      obtain ⟨hpath, -⟩ := firstOwned?_eq_some hbefore
      rw [hbefore] at hresolve
      have hlt : r.candidates.idxOf path < before.length := by
        rw [hsplit, List.idxOf_append_of_mem hpath]
        exact List.idxOf_lt_length_of_mem hpath
      have hlate := hle path owner hresolve
      omega
  · intro hbefore
    rw [hbefore, Option.none_or] at hresolve
    refine ⟨by simp [hsplit], fun path owner hfound => ?_⟩
    rw [hresolve] at hfound
    obtain ⟨-, howner⟩ := firstOwned?_eq_some hfound
    have hpath : path ∉ before := by
      intro hmem
      rw [firstOwned?_eq_none hbefore path hmem] at howner
      cases howner
    rw [hindex, hsplit, List.idxOf_append_of_notMem hpath]
    exact Nat.le_add_right _ _

theorem resolvePath?_eq (t : SymbolTable) (r : Reference) :
    t.resolvePath? r = t.firstOwned? r.candidates := rfl

theorem resolvePath?_insert_of_tries (h : t.Tries r p) :
    (t.insert p u).resolvePath? r = some (p, u) := by
  obtain ⟨before, after, hsplit, hp⟩ := List.eq_append_cons_of_mem h.1
  have hbefore : t.firstOwned? before = none := (tries_iff hsplit hp).1 h
  rw [resolvePath?_eq, hsplit, firstOwned?_append, firstOwned?_insert_of_not_mem hp, hbefore,
    Option.none_or, firstOwned?_insert_cons]

theorem resolvePath?_insert_of_not_tries (h : ¬ t.Tries r p) :
    (t.insert p u).resolvePath? r = t.resolvePath? r := by
  rw [resolvePath?_eq, resolvePath?_eq]
  by_cases hmem : p ∈ r.candidates
  · obtain ⟨before, after, hsplit, hp⟩ := List.eq_append_cons_of_mem hmem
    obtain ⟨found, hfound⟩ := Option.ne_none_iff_exists'.1 (mt (tries_iff hsplit hp).2 h)
    rw [hsplit, firstOwned?_append, firstOwned?_append, firstOwned?_insert_of_not_mem hp, hfound,
      Option.some_or, Option.some_or]
  · exact firstOwned?_insert_of_not_mem hmem

/-- **What becomes of a reference when a path is entered.**  A reference that stands for something
does so afterwards too.  It stands for something else only if the path is tried for it, that is, if
the path is one of its candidates at a place not after the one that was found; and then it stands
for that path and the file it was entered for.  The candidates of a reference are different from
each other, so that there is only one such place. -/
theorem resolve_insert_exact (t : SymbolTable) (r : Reference) (p u : String) :
    r.candidates.Nodup ∧
    ((t.resolve? r).isSome → ((t.insert p u).resolve? r).isSome) ∧
    ((t.insert p u).resolvePath? r ≠ t.resolvePath? r → t.Tries r p) ∧
    (t.Tries r p → (t.insert p u).resolvePath? r = some (p, u)) := by
  refine ⟨r.nodup_candidates, fun hsome => ?_, fun hne => ?_, resolvePath?_insert_of_tries⟩
  · by_cases htries : t.Tries r p
    · rw [resolve?, resolvePath?_insert_of_tries htries]
      rfl
    · rwa [resolve?, resolvePath?_insert_of_not_tries htries]
  · by_contra htries
    exact hne (resolvePath?_insert_of_not_tries htries)

/-- `Limit` inside `Outer` and `Inner`, found below `Outer`: a definition at the top level takes its
place, one below `Inner` does not, and a reference that stood for nothing gets the innermost. -/
theorem resolve_insert_exact_limit :
    let t : SymbolTable := insert ∅ "::Outer::Limit" "outer.rb"
    let r : Reference := .lexical "Limit" ["Outer", "Inner"]
    t.resolvePath? r = some ("::Outer::Limit", "outer.rb") ∧
      (t.insert "::Limit" "top.rb").resolvePath? r = some ("::Limit", "top.rb") ∧
      (t.insert "::Outer::Inner::Limit" "inner.rb").resolvePath? r = t.resolvePath? r ∧
      (insert ∅ "::Outer::Inner::Limit" "inner.rb").resolvePath? r =
        some ("::Outer::Inner::Limit", "inner.rb") := by
  intro t r
  have hfound : t.resolvePath? r = some ("::Outer::Limit", "outer.rb") := by decide
  have hplace : ∀ p, t.Tries r p → r.candidates.idxOf p ≤ 1 := fun p h => h.2 _ _ hfound
  refine ⟨hfound, ?_, ?_, ?_⟩
  · refine (resolve_insert_exact t r "::Limit" "top.rb").2.2.2 ⟨by decide, ?_⟩
    intro path owner _
    exact Nat.zero_le _
  · by_contra hne
    have hlate := hplace _ ((resolve_insert_exact t r "::Outer::Inner::Limit" "inner.rb").2.2.1 hne)
    exact absurd hlate (by decide)
  · refine (resolve_insert_exact ∅ r "::Outer::Inner::Limit" "inner.rb").2.2.2 ⟨by decide, ?_⟩
    intro path owner h
    cases h

end SymbolTable

end LoadOrder
