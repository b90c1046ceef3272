import LoadOrder.Proofs.Definition.Laws
import LoadOrder.Scan.Walk

/-!
# Scanning piece by piece

The findings of a list of statements are those of its first part followed by those of the rest, and
the first part that fails decides.  With the laws of merging this makes it irrelevant where a list
of statements is cut, also inside a namespace: a class or module may be closed and opened again
between two statements of its body (`Scanner.scan_composes`).
-/

namespace LoadOrder

namespace Findings

theorem append_assoc (a b c : Findings) : a ++ b ++ c = a ++ (b ++ c) := by
  show append (append a b) c = append a (append b c)
  simp only [append, DefinitionTree.merge_assoc, List.append_assoc]

@[simp] theorem empty_append (a : Findings) : (∅ : Findings) ++ a = a := by
  show append ⟨∅, [], []⟩ a = a
  simp only [append, DefinitionTree.empty_merge, List.nil_append]

theorem nestedIn_append (name : String) (a b : Findings) :
    (a ++ b).nestedIn name = a.nestedIn name ++ b.nestedIn name := by
  show nestedIn name (append a b) = append (a.nestedIn name) (b.nestedIn name)
  simp only [nestedIn, append, DefinitionTree.insert_merge_insert, List.map_append]

end Findings

namespace ScanOutcome

theorem map_eq_self {change : Findings → Findings} (h : ∀ f, change f = f) (o : ScanOutcome) :
    o.map change = o := by
  cases o with
  | error e => rfl
  | ok f => exact congrArg Except.ok (h f)

theorem map_map_eq {first second both : Findings → Findings}
    (h : ∀ f, second (first f) = both f) (o : ScanOutcome) :
    (o.map first).map second = o.map both := by
  cases o with
  | error e => rfl
  | ok f => exact congrArg Except.ok (h f)

end ScanOutcome

/-- A file with the given statements. -/
def Node.program (statements : List Slot) : Node := ⟨.program, [.list statements]⟩

/-- The slot holds the definition of a module, or of a class without a superclass, with the given
name and the given statements in its body. -/
inductive Slot.Opens (name : String) (body : List Slot) : Slot → Prop
  | ofModule {children : List Slot} (hname : (Node.mk .moduleDef children).namespaceName = .ok name)
      (hbody : Slot.bodyStatements children 1 = body) : Opens name body (.node .moduleDef children)
  | ofClass {children : List Slot} (hname : (Node.mk .classDef children).namespaceName = .ok name)
      (hsuper : children[1]? = some .nil) (hbody : Slot.bodyStatements children 2 = body) :
      Opens name body (.node .classDef children)

namespace Scanner

variable {s : Scanner} {name : String} {xs ys : List Slot}

/-! ### Lists of statements -/

/-- **Statements are scanned piece by piece.** -/
theorem statements_append (s : Scanner) (xs ys : List Slot) :
    s.statements (xs ++ ys) = (do
      let first ← s.statements xs
      let others ← s.statements ys
      .ok (first ++ others)) := by
  induction xs with
  | nil =>
    simp only [List.nil_append, statements]
    cases s.statements ys with
    | error e => rfl
    | ok g => simp [Bind.bind, Except.bind]
  | cons slot xs ih =>
    rw [List.cons_append, statements, ih, statements]
    cases s.statement slot with
    | error e => rfl
    | ok f =>
      cases s.statements xs with
      | error e => rfl
      | ok g =>
        cases s.statements ys with
        | error e => rfl
        | ok h => simp [Bind.bind, Except.bind, Findings.append_assoc]

theorem scan_program (s : Scanner) (xs : List Slot) :
    s.scan (.program xs) = s.statements xs := rfl

/-! ### Namespaces -/

theorem mentionsAt_of_isNil {children : List Slot} {i : Nat} (h : children[i]? = some .nil) :
    s.mentionsAt children i = .ok ∅ := by
  induction children generalizing i with
  | nil => simp at h
  | cons slot rest ih =>
    cases i with
    | zero =>
      obtain rfl : slot = .nil := by simpa using h
      rfl
    | succ i => exact ih (by simpa using h)

/-- A definition with a plain name that mentions nothing outside its body is its body, moved into
the namespace. -/
theorem statement_of_namespaceName {kind : Kind} {children : List Slot} {i : Nat}
    (huses : s.mentions (.node kind children) = .ok ∅) (hslot : kind.bodySlot? = some i)
    (hname : (Node.mk kind children).namespaceName = .ok name) :
    s.statement (.node kind children) =
      (s.statements (Slot.bodyStatements children i)).map (Findings.nestedIn name) := by
  rw [statement, huses]
  simp only [hslot, namespaceFindings, hname, bodyAt_eq]
  cases s.statements (Slot.bodyStatements children i) with
  | error e => rfl
  | ok f => simp [Bind.bind, Except.bind, Except.map]

theorem statement_of_opens {slot : Slot} (h : slot.Opens name xs) :
    s.statement slot = (s.statements xs).map (Findings.nestedIn name) := by
  cases h with
  | @ofModule children hname hbody =>
    have huses : s.mentions (.node .moduleDef children) = .ok ∅ := by
      rw [mentions]
      rfl
    rw [statement_of_namespaceName huses rfl hname, hbody]
  | @ofClass children hname hsuper hbody =>
    have huses : s.mentions (.node .classDef children) = .ok ∅ := by
      rw [mentions]
      simp [Kind.role, ScanOutcome.concat, mentionsAt_of_isNil hsuper, Bind.bind, Except.bind]
    rw [statement_of_namespaceName huses rfl hname, hbody]

/-- **A namespace may be closed and opened again** between two statements of its body. -/
theorem statements_reopened {a b c : Slot} (ha : a.Opens name xs) (hb : b.Opens name ys)
    (hc : c.Opens name (xs ++ ys)) : s.statements [a, b] = s.statements [c] := by
  rw [statements_singleton, statement_of_opens hc, statements_append, statements,
    statements_singleton, statement_of_opens ha, statement_of_opens hb]
  cases s.statements xs with
  | error e => rfl
  | ok f =>
    cases s.statements ys with
    | error e => rfl
    | ok g => exact congrArg Except.ok (Findings.nestedIn_append name f g).symm

/-! ### Whole files -/

/-- **Scans compose**: two lists of statements one after the other fail as the first that fails, and
otherwise their findings are put together.  Two openings of one namespace, anywhere in a file, can
be replaced by one with both bodies. -/
theorem scan_composes (s : Scanner) (xs ys : List Slot) :
    (∀ e, s.scan (.program xs) = .error e → s.scan (.program (xs ++ ys)) = .error e) ∧
    (∀ f e, s.scan (.program xs) = .ok f → s.scan (.program ys) = .error e →
      s.scan (.program (xs ++ ys)) = .error e) ∧
    (∀ f g, s.scan (.program xs) = .ok f → s.scan (.program ys) = .ok g →
      s.scan (.program (xs ++ ys)) = .ok ⟨f.definitions.merge g.definitions,
        f.references ++ g.references, f.diagnostics ++ g.diagnostics⟩) ∧
    ∀ name a b c, a.Opens name xs → b.Opens name ys → c.Opens name (xs ++ ys) →
      ∀ before after, s.scan (.program (before ++ [a, b] ++ after)) =
        s.scan (.program (before ++ [c] ++ after)) := by
  simp only [scan_program]
  refine ⟨fun e hx => ?_, fun f e hx hy => ?_, fun f g hx hy => ?_,
    fun name a b c ha hb hc before after => ?_⟩
  · rw [statements_append, hx]
    rfl
  · rw [statements_append, hx, hy]
    rfl
  · rw [statements_append, hx, hy]
    rfl
  · simp only [statements_append, statements_reopened ha hb hc]

/-- A module with a constant in it is opened again, around a node of an unknown kind. -/
theorem scan_composes_reopened :
    let limit : Slot := .node .assign [.node .varField [.node .const [.literal "LIMIT"]],
      .node .varRef [.node .const [.literal "Base"]]]
    let odd : Slot := .node (.unknown "odd") []
    let opening (body : List Slot) : Slot :=
      .node .moduleDef [.node .constRef [.node .const [.literal "N"]], .node .bodyStmt [.list body]]
    let lenient : Scanner := ⟨"n.rb", false⟩
    let strict : Scanner := ⟨"n.rb", true⟩
    lenient.scan (.program [opening [limit], opening [odd]]) =
        lenient.scan (.program [opening [limit, odd]]) ∧
      (∃ f, lenient.scan (.program [limit, odd]) = .ok f ∧ f.definitions.names = ["LIMIT"] ∧
        f.references = [.lexical "Base" []] ∧ f.diagnostics.length = 1) ∧
      strict.scan (.program [limit, odd]) = .error ⟨"n.rb", "odd"⟩ ∧
      strict.scan (.program [odd, limit]) = .error ⟨"n.rb", "odd"⟩ := by
  intro limit odd opening lenient strict
  have hopens (body : List Slot) : (opening body).Opens "N" body := .ofModule rfl rfl
  obtain ⟨-, -, hput, hreopen⟩ := scan_composes lenient [limit] [odd]
  obtain ⟨-, hlater, -, -⟩ := scan_composes strict [limit] [odd]
  obtain ⟨hfirst, -, -, -⟩ := scan_composes strict [odd] [limit]
  exact ⟨hreopen "N" _ _ _ (hopens _) (hopens _) (hopens _) [] [],
    ⟨_, hput _ _ rfl rfl, rfl, rfl, rfl⟩, hlater _ _ rfl rfl, hfirst _ rfl⟩

end Scanner

end LoadOrder
