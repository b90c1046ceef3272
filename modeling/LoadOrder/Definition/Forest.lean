import LoadOrder.Ordered.NameSet

/-!
# Forests of names

A forest is a list of names, each with the forest below it.  It is written as an inductive type
of its own, so that a function on forests is a plain recursion.  A forest is `Sorted` when the
names at every level are strictly increasing; the operations keep that.
-/

namespace LoadOrder

/-- A list of names with the names below each. -/
inductive Forest where
  | nil
  | entry (name : String) (nested rest : Forest)
  deriving DecidableEq, Repr

namespace Forest

/-- The names at the top level. -/
def names : Forest → List String
  | nil => []
  | entry name _ rest => name :: rest.names

/-- The names at every level are strictly increasing. -/
def Sorted : Forest → Prop
  | nil => True
  | entry name nested rest => (∀ other ∈ rest.names, name < other) ∧ nested.Sorted ∧ rest.Sorted

/-- The forest below a name. -/
def get? (name : String) : Forest → Option Forest
  | nil => none
  | entry other nested rest => if name = other then some nested else rest.get? name

/-- Changes the forest below a name; a name that is not there is put in its place, with the empty
forest below it before the change. -/
def alter (name : String) (change : Forest → Forest) : Forest → Forest
  | nil => entry name (change nil) nil
  | entry other nested rest =>
    if name < other then entry name (change nil) (entry other nested rest)
    else if name = other then entry other (change nested) rest
    else entry other nested (alter name change rest)

/-- Adds the names of the first forest to the second, level by level. -/
def mergeInto : Forest → Forest → Forest
  | nil => fun target => target
  | entry name nested rest => fun target =>
    mergeInto rest (alter name (fun below => mergeInto nested below) target)

/-- The number of names at every level together. -/
def total : Forest → Nat
  | nil => 0
  | entry _ nested rest => 1 + nested.total + rest.total

/-- Every name with what comes before it put in front, parents before what they hold. -/
def flatten (join : String → String → String) (outer : String) : Forest → List String
  | nil => []
  | entry name nested rest =>
    let path := join outer name
    path :: (flatten join path nested ++ flatten join outer rest)

theorem names_alter (name : String) (change : Forest → Forest) (f : Forest) :
    (alter name change f).names = NameSet.insertList name f.names := by
  induction f with
  | nil => rfl
  | entry other nested rest _ ih =>
    simp only [alter, names, NameSet.insertList]
    split
    · rfl
    · split
      · rfl
      · simp [names, ih]

theorem sorted_alter {name : String} {change : Forest → Forest}
    (hchange : ∀ g : Forest, g.Sorted → (change g).Sorted) {f : Forest} (h : f.Sorted) :
    (alter name change f).Sorted := by
  induction f with
  | nil => exact ⟨fun _ hm => absurd hm List.not_mem_nil, hchange nil trivial, trivial⟩
  | entry other nested rest _ ih =>
    obtain ⟨hlt, hnested, hrest⟩ := h
    simp only [alter]
    split
    · rename_i hname
      refine ⟨fun z hz => ?_, hchange nil trivial, hlt, hnested, hrest⟩
      rcases List.mem_cons.mp hz with rfl | hz
      · exact hname
      · exact String.lt_trans hname (hlt z hz)
    · split
      · exact ⟨hlt, hchange nested hnested, hrest⟩
      · rename_i hnot hne
        refine ⟨fun z hz => ?_, hnested, ih hrest⟩
        rw [names_alter] at hz
        rcases NameSet.mem_insertList.mp hz with rfl | hz
        · exact lt_of_not_lt_of_ne hnot hne
        · exact hlt z hz

theorem sorted_mergeInto {f g : Forest} (hf : f.Sorted) (hg : g.Sorted) :
    (mergeInto f g).Sorted := by
  induction f generalizing g with
  | nil => exact hg
  | entry name nested rest ihNested ihRest =>
    exact ihRest hf.2.2 (sorted_alter (fun _ h => ihNested hf.2.1 h) hg)

theorem sorted_get? {name : String} {f g : Forest} (h : f.Sorted) (hg : f.get? name = some g) :
    g.Sorted := by
  induction f with
  | nil => simp [get?] at hg
  | entry other nested rest _ ih =>
    simp only [get?] at hg
    split at hg
    · exact Option.some.inj hg ▸ h.2.1
    · exact ih h.2.2 hg

end Forest

end LoadOrder
