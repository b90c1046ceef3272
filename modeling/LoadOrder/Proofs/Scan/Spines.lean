import LoadOrder.Proofs.Scan.Composition

/-!
# Qualified names

A qualified name is a node that holds what stands before the last double colon and the token of the
name behind it, so that a name with several segments is a spine of such nodes over a base.  If the
base is a constant, the whole spine is one reference with a qualified name; otherwise the base is
scanned for what it mentions, and every segment is a reference of its own.

* `Slot.chain?_of_spine` : the reference that a spine stands for, if its base stands for one;
* `Scanner.mentions_of_spine` : otherwise the base is scanned once, and the segments follow;
* `Scanner.mentions_spine_exact` : both cases together.

A scan asks at every level of a spine whether it is a chain of constants, and goes one level down if
it is not.  The answer is the same at all levels, since it is up to the base.
-/

namespace LoadOrder

/-! ### Spines -/

/-- The slot holds the base followed by the names, each behind a double colon. -/
inductive Slot.Spine (base : Slot) : List String → Slot → Prop
  | nil : Spine base [] base
  | concat {names : List String} {name : String} {parent : Slot} {rest : List Slot}
      (hparent : Spine base names parent) (hname : constantAt (parent :: rest) 1 = some name) :
      Spine base (names ++ [name]) (.node .constPathRef (parent :: rest))

theorem pathText_concat (outer : String) (names : List String) (name : String) :
    pathText outer (names ++ [name]) = qualify (pathText outer names) name := by
  simp [pathText, List.foldl_append]

namespace Reference

/-- The reference to a constant at the end of a path inside the one referred to. -/
def extended (names : List String) : Reference → Reference
  | .lexical name scope => .lexical (pathText name names) scope
  | .root name => .root (pathText name names)

theorem extended_nil (r : Reference) : r.extended [] = r := by
  cases r <;> rfl

theorem qualified_extended (names : List String) (name : String) (r : Reference) :
    (r.extended names).qualified name = r.extended (names ++ [name]) := by
  cases r <;> simp only [extended, qualified, pathText_concat]

end Reference

namespace Slot

variable {base slot : Slot} {names : List String} {kind : Kind} {children : List Slot}

/-- **A spine over a chain of constants is a chain of constants**, and over anything else it is
none. -/
theorem chain?_of_spine (h : base.Spine names slot) :
    slot.chain? = base.chain?.map (Reference.extended names) := by
  induction h with
  | nil =>
    cases base.chain? with
    | none => rfl
    | some r => exact congrArg some r.extended_nil.symm
  | concat _ hname ih =>
    simp only [chain?, hname, ih, Option.map_map, Function.comp_def, Reference.qualified_extended]

theorem chain?_eq_none (hkind : kind ≠ .constPathRef)
    (h : ¬ (kind = .varRef ∨ kind = .topConstRef) ∨ constantAt children 0 = none) :
    (node kind children).chain? = none := by
  unfold chain?
  split
  · rename_i heq
    cases heq
    simpa using h
  · rename_i heq
    cases heq
    simpa using h
  · rename_i heq
    cases heq
    exact absurd rfl hkind
  · rfl

end Slot

namespace Findings

theorem append_ofReferences (f : Findings) (rs : List Reference) :
    f ++ ofReferences rs = ⟨f.definitions, f.references ++ rs, f.diagnostics⟩ := by
  show append f ⟨∅, rs, []⟩ = _
  simp only [append, List.append_nil]
  rfl

end Findings

/-! ### Scanning a spine -/

namespace Scanner

variable {s : Scanner} {base slot : Slot} {names : List String} {kind : Kind}
  {children rest : List Slot}

/-- **A spine over a constant** is one reference, with all of its segments. -/
theorem mentions_of_spine_of_chain? {r : Reference} (h : base.Spine names slot)
    (hnames : names ≠ []) (hbase : base.chain? = some r) :
    s.mentions slot = .ok (.ofReferences [r.extended names]) := by
  have hchain := Slot.chain?_of_spine h
  rw [hbase, Option.map_some] at hchain
  cases h with
  | nil => exact absurd rfl hnames
  | concat _ _ =>
    rw [mentions]
    simp only [Kind.role, hchain]

/-- What is no chain of constants mentions what stands before the last double colon, and then the
name behind it. -/
theorem mentions_of_not_chain? {parent : Slot} {name : String}
    (h : (Slot.node .constPathRef (parent :: rest)).chain? = none)
    (hname : Slot.constantAt (parent :: rest) 1 = some name) :
    s.mentions (.node .constPathRef (parent :: rest)) =
      (s.mentions parent).map (· ++ .ofReferences [.lexical name []]) := by
  rw [mentions]
  simp only [Kind.role, h, mentionsAt, lastSegment, hname]
  cases s.mentions parent <;> rfl

/-- **A spine over no constant** mentions what its base mentions, and then its segments one by
one. -/
theorem mentions_of_spine (h : base.Spine names slot) (hbase : base.chain? = none) :
    s.mentions slot =
      (s.mentions base).map (· ++ .ofReferences (names.map (Reference.lexical · []))) := by
  induction h with
  | nil => exact (ScanOutcome.map_eq_self Findings.append_empty _).symm
  | @concat names name parent rest hparent hname ih =>
    have hchain : (Slot.node .constPathRef (parent :: rest)).chain? = none := by
      rw [Slot.chain?_of_spine (.concat hparent hname), hbase]
      rfl
    rw [mentions_of_not_chain? hchain hname, ih]
    refine ScanOutcome.map_map_eq (fun f => ?_) _
    simp only [Findings.append_ofReferences, List.map_append, List.append_assoc, List.map_cons,
      List.map_nil]

theorem statement_eq_mentions (s : Scanner) (hbody : kind.bodySlot? = none)
    (hassign : kind ≠ .assign) :
    s.statement (.node kind children) = s.mentions (.node kind children) := by
  rw [statement]
  simp only [hbody, assigned, if_neg hassign]
  cases s.mentions (.node kind children) with
  | error e => rfl
  | ok f => simp [Bind.bind, Except.bind]

/-- **What a qualified name contributes**, in an expression or as a statement of a file.  Over a
constant it is one reference, with the whole name, from the root if the constant is; over anything
else, what the base contributes, or its failure, and behind that a reference for each segment on its
own. -/
theorem mentions_spine_exact (s : Scanner) (kind : Kind) (children : List Slot)
    (names : List String) (slot : Slot) (hkind : kind ≠ .constPathRef) (hnames : names ≠ [])
    (hspine : (Slot.node kind children).Spine names slot) :
    s.scan (.program [slot]) = s.mentions slot ∧
    (∀ name, Slot.constantAt children 0 = some name →
      (kind = .varRef → s.mentions slot =
        .ok ⟨∅, [.lexical ("::".intercalate (name :: names)) []], []⟩) ∧
      (kind = .topConstRef → s.mentions slot =
        .ok ⟨∅, [.root ("::".intercalate (name :: names))], []⟩)) ∧
    (¬ (kind = .varRef ∨ kind = .topConstRef) ∨ Slot.constantAt children 0 = none →
      (∀ e, s.mentions (.node kind children) = .error e → s.mentions slot = .error e) ∧
      ∀ f, s.mentions (.node kind children) = .ok f → s.mentions slot =
        .ok ⟨f.definitions, f.references ++ names.map (.lexical · []), f.diagnostics⟩) := by
  refine ⟨?_, fun name hname => ⟨?_, ?_⟩, fun hother => ?_⟩
  · cases hspine with
    | nil => exact absurd rfl hnames
    | concat hparent _ =>
      rw [scan_program, statements_singleton, s.statement_eq_mentions rfl (by decide)]
  · rintro rfl
    have hbase : (Slot.node .varRef children).chain? = some (.lexical name []) := by
      rw [Slot.chain?, hname]
      rfl
    rw [mentions_of_spine_of_chain? hspine hnames hbase, ← pathText_eq_intercalate]
    rfl
  · rintro rfl
    have hbase : (Slot.node .topConstRef children).chain? = some (.root name) := by
      rw [Slot.chain?, hname]
      rfl
    rw [mentions_of_spine_of_chain? hspine hnames hbase, ← pathText_eq_intercalate]
    rfl
  · rw [mentions_of_spine hspine (Slot.chain?_eq_none hkind hother)]
    refine ⟨fun e he => by rw [he]; rfl, fun f hf => ?_⟩
    rw [hf, ← Findings.append_ofReferences]
    rfl

/-- The names `A` and `B` behind the constant `M`, behind the same from the root, and behind a
parenthesis with a constant and a node of an unknown kind. -/
theorem mentions_spine_exact_parenthesis :
    let token (text : String) : Slot := .node .const [.literal text]
    let spine (base : Slot) : Slot :=
      .node .constPathRef [.node .constPathRef [base, token "A"], token "B"]
    let inside : Slot := .list [.node .varRef [token "X"], .node (.unknown "odd") []]
    let lenient : Scanner := ⟨"a.rb", false⟩
    let strict : Scanner := ⟨"a.rb", true⟩
    strict.scan (.program [spine (.node .varRef [token "M"])]) =
        .ok ⟨∅, [.lexical "M::A::B" []], []⟩ ∧
      strict.scan (.program [spine (.node .topConstRef [token "M"])]) =
        .ok ⟨∅, [.root "M::A::B"], []⟩ ∧
      (∃ f, lenient.scan (.program [spine (.node .paren [inside])]) = .ok f ∧
        f.references = [.lexical "X" [], .lexical "A" [], .lexical "B" []] ∧
        f.diagnostics.length = 1) ∧
      strict.scan (.program [spine (.node .paren [inside])]) = .error ⟨"a.rb", "odd"⟩ := by
  intro token spine inside lenient strict
  have hspine (base : Slot) : base.Spine ["A", "B"] (spine base) :=
    .concat (.concat .nil rfl) rfl
  have hexact (s : Scanner) (kind : Kind) (children : List Slot) (hkind : kind ≠ .constPathRef) :=
    mentions_spine_exact s kind children ["A", "B"] (spine (.node kind children)) hkind (by decide)
      (hspine _)
  obtain ⟨hlexical, hname, -⟩ := hexact strict .varRef [token "M"] (by decide)
  obtain ⟨hroot, hrootName, -⟩ := hexact strict .topConstRef [token "M"] (by decide)
  obtain ⟨hlenient, -, hfound⟩ := hexact lenient .paren [inside] (by decide)
  obtain ⟨hstrict, -, hfails⟩ := hexact strict .paren [inside] (by decide)
  refine ⟨?_, ?_, ⟨_, hlenient.trans ((hfound (by decide)).2 _ rfl), rfl, rfl⟩, ?_⟩
  · exact hlexical.trans ((hname "M" rfl).1 rfl)
  · exact hroot.trans ((hrootName "M" rfl).2 rfl)
  · exact hstrict.trans ((hfails (by decide)).1 _ rfl)

end Scanner

end LoadOrder
