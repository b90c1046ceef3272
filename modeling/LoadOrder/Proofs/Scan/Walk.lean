import LoadOrder.Scan.Walk
import Mathlib.Data.List.Basic

/-!
# What a scan is put together from

A scan walks over a tree, and all it does with the findings of the pieces is to put them one behind
the other and to move those of a body into its namespace.  `WalkInvariant` says this once, for two
scans of the same tree: a relation between the outcomes for the smallest pieces that is kept by
these two steps holds between the outcomes for the whole (`WalkInvariant.scan`).  The walk is
followed here, by cases on the tree, and nowhere else.
-/

namespace LoadOrder

/-! ### References of the smallest pieces -/

namespace Reference

@[simp] theorem scope_qualified (segment : String) (r : Reference) :
    (r.qualified segment).scope = r.scope := by
  cases r <;> rfl

end Reference

theorem Slot.scope_of_chain? {slot : Slot} {r : Reference} (h : slot.chain? = some r) :
    r.scope = [] := by
  fun_induction Slot.chain? slot generalizing r with
  | case1 children =>
    obtain ⟨name, -, rfl⟩ := Option.map_eq_some_iff.1 h
    rfl
  | case2 children =>
    obtain ⟨name, -, rfl⟩ := Option.map_eq_some_iff.1 h
    rfl
  | case3 parent rest segment hsegment ih =>
    obtain ⟨r', hr', rfl⟩ := Option.map_eq_some_iff.1 h
    rw [Reference.scope_qualified]
    exact ih hr'
  | case4 => cases h
  | case5 => cases h

/-! ### The walk -/

/-- The relation holds between the outcomes of the scanners `s` and `t` for the smallest pieces of
a tree, and putting outcomes together keeps it. -/
structure WalkInvariant (s t : Scanner) (R : ScanOutcome → ScanOutcome → Prop) : Prop where
  empty : R (.ok ∅) (.ok ∅)
  references : ∀ rs : List Reference, (∀ r ∈ rs, r.scope = []) →
    R (.ok (.ofReferences rs)) (.ok (.ofReferences rs))
  definition : ∀ name, R (.ok (.ofDefinition name)) (.ok (.ofDefinition name))
  report : ∀ kind message children, kind = .malformedDefinition ∨ kind = .skippedControlFlow →
    R (.ok (s.report kind message children)) (.ok (t.report kind message children))
  unrecognized : ∀ kind children,
    R (s.unrecognized kind children) (t.unrecognized kind children)
  append : ∀ {a a' b b' : ScanOutcome}, R a a' → R b b' →
    R (do let x ← a; let y ← b; .ok (x ++ y)) (do let x ← a'; let y ← b'; .ok (x ++ y))
  nestedIn : ∀ {a a' : ScanOutcome} (name : String), R a a' →
    R (a.map (Findings.nestedIn name)) (a'.map (Findings.nestedIn name))

namespace WalkInvariant

variable {s t : Scanner} {R : ScanOutcome → ScanOutcome → Prop} (h : WalkInvariant s t R)

include h

theorem concat {α : Type} {f g : α → ScanOutcome} (hfg : ∀ x, R (f x) (g x)) (xs : List α) :
    R (ScanOutcome.concat (xs.map f)) (ScanOutcome.concat (xs.map g)) := by
  induction xs with
  | nil => exact h.empty
  | cons x xs ih => exact h.append (hfg x) ih

theorem chain (slot : Slot) :
    R (.ok (.ofReferences slot.chain?.toList)) (.ok (.ofReferences slot.chain?.toList)) :=
  h.references _ fun _ hr => Slot.scope_of_chain? (Option.mem_toList.1 hr)

theorem lastSegment (children : List Slot) :
    R (.ok (Scanner.lastSegment children)) (.ok (Scanner.lastSegment children)) := by
  refine h.references _ fun r hr => ?_
  obtain ⟨name, -, rfl⟩ := Option.map_eq_some_iff.1 (Option.mem_toList.1 hr)
  rfl

theorem untracked (kind : Kind) (children : List Slot) :
    R (.ok (s.untracked kind children)) (.ok (t.untracked kind children)) := by
  unfold Scanner.untracked
  split
  · exact h.report _ _ _ (Or.inr rfl)
  · exact h.empty

mutual

theorem mentions : (slot : Slot) → R (s.mentions slot) (t.mentions slot)
  | .node kind children => by
    rw [Scanner.mentions, Scanner.mentions]
    cases kind.role with
    | constant => exact h.chain _
    | path =>
      simp only
      split
      · rename_i r hr
        have hchain := h.chain (.node kind children)
        rwa [hr] at hchain
      · exact h.append (mentionsAt children 0) (h.lastSegment children)
    | operands slots => exact h.concat (fun i => mentionsAt children i) slots
    | body slot => exact bodyMentionsAt children slot
    | untracked => exact h.untracked kind children
    | unrecognized => exact h.unrecognized kind children
    | inert => exact h.empty
  | .list items => by
    rw [Scanner.mentions, Scanner.mentions]
    exact mentionsIn items
  | .literal _ | .position _ | .flag _ | .nil => h.empty

theorem mentionsIn : (items : List Slot) → R (s.mentionsIn items) (t.mentionsIn items)
  | [] => h.empty
  | slot :: rest => h.append (mentions slot) (mentionsIn rest)

theorem mentionsAt : (children : List Slot) → (i : Nat) →
    R (s.mentionsAt children i) (t.mentionsAt children i)
  | [], _ => h.empty
  | slot :: _, 0 => mentions slot
  | _ :: rest, i + 1 => mentionsAt rest i

theorem bodyMentionsAt : (children : List Slot) → (i : Nat) →
    R (s.bodyMentionsAt children i) (t.bodyMentionsAt children i)
  | [], _ => h.empty
  | slot :: _, 0 => bodyMentions slot
  | _ :: rest, i + 1 => bodyMentionsAt rest i

theorem bodyMentions : (slot : Slot) → R (s.bodyMentions slot) (t.bodyMentions slot)
  | slot => by
    unfold Scanner.bodyMentions
    split
    · exact mentionsIn _
    · exact mentionsIn _
    · exact mentions _
    · exact h.empty

end

theorem assigned (kind : Kind) (children : List Slot) :
    R (.ok (Scanner.assigned kind children)) (.ok (Scanner.assigned kind children)) := by
  unfold Scanner.assigned
  split
  · split
    · exact h.definition _
    · exact h.empty
  · exact h.empty

theorem namespaceFindings (kind : Kind) (children : List Slot) {a a' : ScanOutcome} (ha : R a a') :
    R (s.namespaceFindings kind children a) (t.namespaceFindings kind children a') := by
  unfold Scanner.namespaceFindings
  split
  · exact h.nestedIn _ ha
  · exact h.report _ _ _ (Or.inl rfl)

mutual

theorem statement : (slot : Slot) → R (s.statement slot) (t.statement slot)
  | .node kind children => by
    have huses := h.mentions (.node kind children)
    rw [Scanner.statement, Scanner.statement]
    cases kind.bodySlot? with
    | some i => exact h.append huses (h.namespaceFindings kind children (bodyAt children i))
    | none => exact h.append (h.assigned kind children) huses
  | .list _ | .literal _ | .position _ | .flag _ | .nil => h.empty

theorem statements : (items : List Slot) → R (s.statements items) (t.statements items)
  | [] => h.empty
  | slot :: rest => h.append (statement slot) (statements rest)

theorem bodyAt : (children : List Slot) → (i : Nat) →
    R (s.bodyAt children i) (t.bodyAt children i)
  | [], _ => h.empty
  | slot :: _, 0 => body slot
  | _ :: rest, i + 1 => bodyAt rest i

theorem body : (slot : Slot) → R (s.body slot) (t.body slot)
  | slot => by
    unfold Scanner.body
    split
    · exact statements _
    · exact statements _
    · exact statement _
    · exact h.empty

end

/-- **What is kept by the steps of a walk holds of whole scans.** -/
theorem scan (root : Node) : R (s.scan root) (t.scan root) := by
  unfold Scanner.scan
  split
  · exact h.statements _
  · exact h.statements _

end WalkInvariant

end LoadOrder
