/-!
# Regular expressions

Expressions over symbols that are numbers, matched by partial derivatives: the states of a match
are the expressions that the rest of the word has to match one of.

`Regex.test_iff` says that the matcher decides the language of an expression.
-/

namespace LoadOrder

/-- A set of symbols: those in some ranges, ends included, or all others. -/
structure SymbolSet where
  negated : Bool := false
  ranges : List (Nat × Nat) := []
  deriving DecidableEq, Repr

namespace SymbolSet

def contains (s : SymbolSet) (n : Nat) : Bool :=
  (s.ranges.any fun (low, high) => low ≤ n && n ≤ high) != s.negated

/-- Every symbol. -/
def any : SymbolSet := ⟨true, []⟩

def single (n : Nat) : SymbolSet := ⟨false, [(n, n)]⟩

end SymbolSet

/-- A regular expression. -/
inductive Regex where
  | never
  | empty
  | symbol (set : SymbolSet)
  | seq (a b : Regex)
  | alt (a b : Regex)
  | star (a : Regex)
  deriving DecidableEq, Repr

namespace Regex

/-- The words of an expression. -/
inductive Accepts : Regex → List Nat → Prop where
  | empty : Accepts .empty []
  | symbol {s : SymbolSet} {n : Nat} : s.contains n → Accepts (.symbol s) [n]
  | seq {a b : Regex} {u v : List Nat} : Accepts a u → Accepts b v → Accepts (.seq a b) (u ++ v)
  | left {a b : Regex} {w : List Nat} : Accepts a w → Accepts (.alt a b) w
  | right {a b : Regex} {w : List Nat} : Accepts b w → Accepts (.alt a b) w
  | done {a : Regex} : Accepts (.star a) []
  | more {a : Regex} {u v : List Nat} : Accepts a u → Accepts (.star a) v →
      Accepts (.star a) (u ++ v)

/-- Whether the empty word matches. -/
def nullable : Regex → Bool
  | .never | .symbol _ => false
  | .empty | .star _ => true
  | .seq a b => a.nullable && b.nullable
  | .alt a b => a.nullable || b.nullable

/-- One expression after another. -/
def andThen : Regex → Regex → Regex
  | .empty, b => b
  | a, b => .seq a b

/-- The expressions that the rest of a word has to match one of, after a symbol. -/
def after (n : Nat) : Regex → List Regex
  | .never | .empty => []
  | .symbol s => if s.contains n then [.empty] else []
  | .alt a b => a.after n ++ b.after n
  | .seq a b =>
    (a.after n).map (·.andThen b) ++ if a.nullable then b.after n else []
  | .star a => (a.after n).map (·.andThen (.star a))

/-- The states after one more symbol. -/
def step (states : List Regex) (n : Nat) : List Regex := (states.flatMap (after n)).eraseDups

/-- Whether a whole word matches. -/
def test (r : Regex) (word : List Nat) : Bool := (word.foldl step [r]).any nullable

/-- Any number of symbols of a set. -/
def many (s : SymbolSet) : Regex := .star (.symbol s)

/-- Every word. -/
def anything : Regex := many .any

/-- The words of one symbol. -/
def ofSymbol (n : Nat) : Regex := .symbol (.single n)

/-- The expressions of a list, one after the other. -/
def sequence (l : List Regex) : Regex := l.foldr .andThen .empty

/-! ### The matcher and the language -/

theorem nullable_iff {r : Regex} : r.nullable ↔ Accepts r [] := by
  induction r with
  | never => exact ⟨fun h => (by cases h), fun h => (by cases h)⟩
  | empty => exact ⟨fun _ => .empty, fun _ => rfl⟩
  | symbol s =>
    refine ⟨fun h => (by cases h), fun h => ?_⟩
    generalize hw : ([] : List Nat) = w at h
    cases h
    simp at hw
  | seq a b iha ihb =>
    simp only [nullable, Bool.and_eq_true, iha, ihb]
    constructor
    · rintro ⟨h1, h2⟩
      exact Accepts.seq h1 h2
    · intro h
      generalize hw : ([] : List Nat) = w at h
      cases h with
      | seq h1 h2 =>
        obtain ⟨rfl, rfl⟩ := List.append_eq_nil_iff.mp hw.symm
        exact ⟨h1, h2⟩
  | alt a b iha ihb =>
    simp only [nullable, Bool.or_eq_true, iha, ihb]
    constructor
    · rintro (h | h)
      · exact .left h
      · exact .right h
    · intro h
      cases h with
      | left h => exact Or.inl h
      | right h => exact Or.inr h
  | star a _ => exact ⟨fun _ => .done, fun _ => rfl⟩

theorem accepts_andThen {a b : Regex} {w : List Nat} :
    Accepts (a.andThen b) w ↔ Accepts (.seq a b) w := by
  unfold andThen
  split
  · constructor
    · intro h
      exact Accepts.seq (u := []) .empty h
    · intro h
      cases h with
      | seq h1 h2 =>
        cases h1
        exact h2
  · exact Iff.rfl

/-- A star that accepts a word with a first symbol starts with a copy that has this symbol. -/
theorem accepts_star_cons {a : Regex} {n : Nat} {w : List Nat} (h : Accepts (.star a) (n :: w)) :
    ∃ u v, w = u ++ v ∧ Accepts a (n :: u) ∧ Accepts (.star a) v := by
  generalize hr : Regex.star a = r at h
  generalize hx : n :: w = x at h
  induction h with
  | @more _ u v h1 h2 _ ih =>
    cases hr
    cases u with
    | nil => exact ih rfl hx
    | cons m u =>
      simp only [List.cons_append, List.cons.injEq] at hx
      obtain ⟨rfl, rfl⟩ := hx
      exact ⟨u, v, rfl, h1, h2⟩
  | done => cases hx
  | _ => cases hr

/-- What is left after a symbol accepts exactly the rest of the words that start with it. -/
theorem accepts_cons_iff {r : Regex} {n : Nat} {w : List Nat} :
    Accepts r (n :: w) ↔ ∃ s ∈ r.after n, Accepts s w := by
  induction r generalizing w with
  | never =>
    exact ⟨fun h => (by cases h), fun ⟨s, hs, _⟩ => (by simp [after] at hs)⟩
  | empty =>
    exact ⟨fun h => (by cases h), fun ⟨s, hs, _⟩ => (by simp [after] at hs)⟩
  | symbol s =>
    simp only [after]
    constructor
    · intro h
      cases h with
      | symbol hs => exact ⟨.empty, by simp [hs], .empty⟩
    · rintro ⟨t, ht, hw⟩
      split at ht
      · rename_i hs
        rw [List.mem_singleton] at ht
        subst ht
        cases hw
        exact .symbol hs
      · cases ht
  | alt a b iha ihb =>
    simp only [after, List.mem_append]
    constructor
    · intro h
      cases h with
      | left h =>
        obtain ⟨s, hs, hw⟩ := iha.mp h
        exact ⟨s, Or.inl hs, hw⟩
      | right h =>
        obtain ⟨s, hs, hw⟩ := ihb.mp h
        exact ⟨s, Or.inr hs, hw⟩
    · rintro ⟨s, hs | hs, hw⟩
      · exact .left (iha.mpr ⟨s, hs, hw⟩)
      · exact .right (ihb.mpr ⟨s, hs, hw⟩)
  | seq a b iha ihb =>
    simp only [after, List.mem_append, List.mem_map]
    constructor
    · intro h
      generalize hx : n :: w = x at h
      cases h with
      | seq h1 h2 =>
        rename_i u v
        cases u with
        | nil =>
          have hv : v = n :: w := by simpa using hx.symm
          subst hv
          obtain ⟨s, hs, hw⟩ := ihb.mp h2
          exact ⟨s, Or.inr (by simp [nullable_iff.mpr h1, hs]), hw⟩
        | cons m u =>
          simp only [List.cons_append, List.cons.injEq] at hx
          obtain ⟨rfl, rfl⟩ := hx
          obtain ⟨s, hs, hw⟩ := iha.mp h1
          exact ⟨_, Or.inl ⟨s, hs, rfl⟩, accepts_andThen.mpr (.seq hw h2)⟩
    · rintro ⟨s, ⟨t, ht, rfl⟩ | hs, hw⟩
      · have h := accepts_andThen.mp hw
        cases h with
        | seq h1 h2 => exact Accepts.seq (iha.mpr ⟨t, ht, h1⟩) h2
      · split at hs
        · rename_i hn
          exact Accepts.seq (u := []) (nullable_iff.mp hn) (ihb.mpr ⟨s, hs, hw⟩)
        · cases hs
  | star a iha =>
    simp only [after, List.mem_map]
    constructor
    · intro h
      obtain ⟨u, v, rfl, h1, h2⟩ := accepts_star_cons h
      obtain ⟨s, hs, hw⟩ := iha.mp h1
      exact ⟨_, ⟨s, hs, rfl⟩, accepts_andThen.mpr (.seq hw h2)⟩
    · rintro ⟨s, ⟨t, ht, rfl⟩, hw⟩
      have h := accepts_andThen.mp hw
      cases h with
      | seq h1 h2 => exact Accepts.more (iha.mpr ⟨t, ht, h1⟩) h2

theorem any_nullable_foldl_iff {states : List Regex} {word : List Nat} :
    (word.foldl step states).any nullable ↔ ∃ s ∈ states, Accepts s word := by
  induction word generalizing states with
  | nil => simp [nullable_iff]
  | cons n word ih =>
    rw [List.foldl_cons, ih]
    simp only [step, List.mem_eraseDups, List.mem_flatMap]
    constructor
    · rintro ⟨s, ⟨r, hr, hs⟩, hw⟩
      exact ⟨r, hr, accepts_cons_iff.mpr ⟨s, hs, hw⟩⟩
    · rintro ⟨r, hr, hw⟩
      obtain ⟨s, hs, hw⟩ := accepts_cons_iff.mp hw
      exact ⟨s, ⟨r, hr, hs⟩, hw⟩

/-- The matcher decides the language of an expression. -/
theorem test_iff {r : Regex} {word : List Nat} : r.test word ↔ Accepts r word := by
  rw [test, any_nullable_foldl_iff]
  simp

end Regex

end LoadOrder
