import LoadOrder.Proofs.Scan.Composition
import Mathlib.Data.List.Infix

/-!
# Statements inside namespaces

A piece of a file may be put inside namespaces, one inside the other.  Its definitions are then
found below the names of the namespaces, and the names stand in front of the scope of everything
that is mentioned from inside; what is mentioned from the root stays as it is, and so do the
reports.

* `Findings.within` : findings seen from outside several namespaces, the outermost first;
* `Reference.candidates_within` : what is tried for a reference inside namespaces, in terms of what
  is tried for it without them;
* `Scanner.scan_wrapped` : the scan of statements inside namespaces, from that of the statements.

A scan goes into a namespace and puts one name in front on its way out, so it meets the outermost
namespace first and adds its name last.
-/

namespace LoadOrder

/-! ### Definitions below a chain of names -/

/-- The forest with a single name at each level, going down along the names, and `f` below the
last. -/
def Forest.chain : List String → Forest → Forest
  | [], f => f
  | name :: names, f => entry name (chain names f) nil

theorem Forest.sorted_chain {f : Forest} (hf : f.Sorted) (names : List String) :
    (f.chain names).Sorted := by
  induction names with
  | nil => exact hf
  | cons name names ih => exact ⟨fun _ h => absurd h List.not_mem_nil, ih, trivial⟩

namespace DefinitionTree

/-- The tree that defines the names, each inside the one before, and `t` inside the last. -/
def chain (names : List String) (t : DefinitionTree) : DefinitionTree :=
  ⟨t.forest.chain names, Forest.sorted_chain t.sorted names⟩

theorem insert_empty (name : String) (t : DefinitionTree) : insert ∅ name t = t.chain [name] := by
  have hmerge : Forest.mergeInto t.forest .nil = t.forest := congrArg forest (empty_merge t)
  simp only [insert, chain, mk.injEq]
  exact congrArg (Forest.entry name · .nil) hmerge

theorem chain_cons (name : String) (names : List String) (t : DefinitionTree) :
    t.chain (name :: names) = insert ∅ name (t.chain names) := by
  rw [insert_empty]
  rfl

end DefinitionTree

/-! ### References from inside -/

namespace Reference

/-- The reference as seen from outside several namespaces, the outermost first. -/
def within (outer : List String) : Reference → Reference
  | .lexical name scope => .lexical name (outer ++ scope)
  | .root name => .root name

theorem within_nil (r : Reference) : r.within [] = r := by
  cases r <;> rfl

theorem nestedIn_within (name : String) (outer : List String) (r : Reference) :
    (r.within outer).nestedIn name = r.within (name :: outer) := by
  cases r <;> rfl

theorem candidatesFrom_eq_cons (name outer : String) (scope : List String) :
    candidatesFrom name outer scope =
      qualify outer name :: (candidatesFrom name outer scope).tail := by
  cases scope <;> rfl

theorem candidatesFrom_append (name start : String) (outer scope : List String) :
    candidatesFrom name start (outer ++ scope) =
      outer.inits.map (fun names => qualify (pathText start names) name) ++
        (candidatesFrom name (pathText start outer) scope).tail := by
  induction outer generalizing start with
  | nil =>
    rw [List.nil_append, candidatesFrom_eq_cons]
    rfl
  | cons first outer ih =>
    rw [List.cons_append, candidatesFrom, ih, List.inits_cons, List.map_cons, List.map_map]
    rfl

theorem qualify_append (front start name : String) :
    qualify (front ++ start) name = front ++ qualify start name := by
  simp only [qualify, String.append_assoc]

theorem candidatesFrom_prepend (name front start : String) (scope : List String) :
    candidatesFrom name (front ++ start) scope =
      (candidatesFrom name start scope).map (front ++ ·) := by
  induction scope generalizing start with
  | nil => simp only [candidatesFrom, qualify_append, List.map_cons, List.map_nil]
  | cons s scope ih => simp only [candidatesFrom, qualify_append, ih, List.map_cons]

/-- **What is tried for a reference inside namespaces**: its name inside each of them, from the top
level inwards, and then what is tried for it without them, except at the top level, inside the
innermost. -/
theorem candidates_within (name : String) (outer scope : List String) :
    ((lexical name scope).within outer).candidates =
      outer.inits.map (fun names => qualify (pathText "" names) name) ++
        (lexical name scope).candidates.tail.map (pathText "" outer ++ ·) := by
  have hinner := candidatesFrom_prepend name (pathText "" outer) "" scope
  rw [String.append_empty] at hinner
  show candidatesFrom name "" (outer ++ scope) = _
  rw [candidatesFrom_append, hinner, List.map_tail]
  rfl

end Reference

namespace Findings

/-- The findings as seen from outside several namespaces, the outermost first. -/
def within (outer : List String) (f : Findings) : Findings :=
  ⟨f.definitions.chain outer, f.references.map (Reference.within outer), f.diagnostics⟩

theorem within_nil (f : Findings) : f.within [] = f := by
  have hreferences : f.references.map (Reference.within []) = f.references :=
    List.map_id'' Reference.within_nil _
  rw [within, hreferences]
  rfl

theorem nestedIn_within (name : String) (outer : List String) (f : Findings) :
    (f.within outer).nestedIn name = f.within (name :: outer) := by
  simp only [nestedIn, within, DefinitionTree.chain_cons, List.map_map, Function.comp_def,
    Reference.nestedIn_within]

end Findings

/-! ### Scanning -/

/-- The statements `ys` are the statements `xs` inside modules, or classes without a superclass,
with the given names, the outermost first. -/
inductive Slot.Wraps (xs : List Slot) : List String → List Slot → Prop
  | nil : Wraps xs [] xs
  | cons {name : String} {names : List String} {inner : List Slot} {slot : Slot}
      (hslot : slot.Opens name inner) (hinner : Wraps xs names inner) :
      Wraps xs (name :: names) [slot]

namespace Scanner

/-- Statements inside namespaces fail as the statements do, and otherwise their findings are moved
into the namespaces. -/
theorem statements_of_wraps (s : Scanner) {names : List String} {xs ys : List Slot}
    (h : Slot.Wraps xs names ys) :
    s.statements ys = (s.statements xs).map (Findings.within names) := by
  induction h with
  | nil => exact (ScanOutcome.map_eq_self Findings.within_nil _).symm
  | @cons name names inner slot hslot _ ih =>
    rw [statements_singleton, statement_of_opens hslot, ih,
      ScanOutcome.map_map_eq (Findings.nestedIn_within name names)]

/-- **Statements inside namespaces** have the same findings, moved into the namespaces: the
definitions below the chain of their names, the reports as they were, and the references in the same
order, with the names in front of the scope unless they are made from the root.  For a reference
that is not, its name is tried inside each of the namespaces, from the top level inwards, and then
what was tried for it before, except at the top level, inside the innermost namespace. -/
theorem scan_wrapped (s : Scanner) (names : List String) (xs ys : List Slot) (f : Findings)
    (hwraps : Slot.Wraps xs names ys) (hxs : s.scan (.program xs) = .ok f) :
    s.scan (.program ys) =
      .ok ⟨f.definitions.chain names, f.references.map (Reference.within names), f.diagnostics⟩ ∧
    ∀ name scope, .lexical name scope ∈ f.references →
      (Reference.lexical name (names ++ scope)).candidates =
        names.inits.map (fun outer => qualify (pathText "" outer) name) ++
          (Reference.lexical name scope).candidates.tail.map (pathText "" names ++ ·) := by
  refine ⟨?_, fun name scope _ => Reference.candidates_within name names scope⟩
  rw [scan_program] at hxs
  rw [scan_program, s.statements_of_wraps hwraps, hxs]
  rfl

/-- A class in a module, around a class that mentions `X` and a constant that is mentioned from the
root. -/
theorem scan_wrapped_twice :
    let name (text : String) : Slot := .node .constRef [.node .const [.literal text]]
    let x : Slot := .node .varRef [.node .const [.literal "X"]]
    let y : Slot := .node .topConstRef [.node .const [.literal "Y"]]
    let c : Slot := .node .classDef [name "C", .nil, .list [x]]
    let xs : List Slot := [c, y, .node (.unknown "odd") []]
    let b : Slot := .node .classDef [name "B", .nil, .list xs]
    let a : Slot := .node .moduleDef [name "A", .node .bodyStmt [b]]
    let scanner : Scanner := ⟨"a.rb", false⟩
    (∃ f, scanner.scan (.program [a]) = .ok f ∧
      f.definitions = .insert ∅ "A" (.insert ∅ "B" (.insertLeaf ∅ "C")) ∧
      f.references = [.lexical "X" ["A", "B", "C"], .root "Y"] ∧ f.diagnostics.length = 1) ∧
    (Reference.lexical "X" ["A", "B", "C"]).candidates =
      ["::X", "::A::X", "::A::B::X", "::A::B::C::X"] := by
  intro name x y c xs b a scanner
  have hwraps : Slot.Wraps xs ["A", "B"] [a] :=
    .cons (.ofModule rfl rfl) (.cons (.ofClass rfl rfl rfl) .nil)
  obtain ⟨hscan, hcandidates⟩ := scan_wrapped scanner ["A", "B"] xs [a] _ hwraps rfl
  refine ⟨⟨_, hscan, by decide, rfl, rfl⟩, ?_⟩
  exact (hcandidates "X" ["C"] List.mem_cons_self).trans (by decide)

end Scanner

end LoadOrder
