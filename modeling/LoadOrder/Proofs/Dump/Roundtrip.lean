import LoadOrder.Dump.Decode
import Mathlib.Tactic.ByContra

/-!
# Reading back what is written

`Slot.render` writes a slot as a JSON value, and `Slot.decode` reads one.  The format has no marks:
nodes, lists and positions are all arrays and are told apart by their shape alone.  This file says
on which slots and on which values writing and reading are inverse to each other.

* `Slot.decode_render` : a well-formed slot is read back as it was written.
* `Slot.exists_render_eq` and `Slot.plain_render` : the values that are written for slots are the
  plain ones, and well-formed slots are enough for all of them.
* `Slot.decode_fails_iff` : a value cannot be read exactly when an object occurs in it.
* `Slot.decode_inverts_render` puts these together.

Both restrictions are needed.  A list that starts with a literal is written like a node, and a
number outside a position is read like its text.
-/

namespace LoadOrder

namespace Kind

/-- The kinds that have a tag of their own. -/
def named : List Kind :=
  [program, classDef, moduleDef, singletonClass, constRef, bodyStmt, methodDef,
    singletonMethodDef, assign, opAssign, varField, varRef, topConstRef, constPathRef,
    constPathField, topConstField, call, methodAddArg, methodAddBlock, argParen, argsAddBlock,
    braceBlock, doBlock, blockVar, params, paren, array, command, commandCall, fcall, vcall,
    field, aref, binary, unary, ifStmt, ifMod, unlessStmt, unlessMod, whileStmt, untilStmt,
    caseStmt, beginStmt, returnStmt, stringLiteral, symbolLiteral, voidStmt, const, ident,
    keyword, int]

@[simp] theorem tag_ofTag (t : String) : (ofTag t).tag = t := by
  unfold ofTag
  split
  -- a tag that is in the table for no kind is kept as it is
  case h_52 => split <;> rfl
  all_goals rfl

theorem ofTag_tag {k : Kind} (h : k ∈ named) : ofTag k.tag = k := by
  revert k
  decide +kernel

end Kind

/-! ### Well-formed slots and plain values -/

namespace Slot

mutual

/-- Every kind is the one that its tag stands for, and no list starts with a literal. -/
def WellFormed : Slot → Prop
  | .node kind children => Kind.ofTag kind.tag = kind ∧ AllWellFormed children
  | .list items => (∀ text, items.head? ≠ some (.literal text)) ∧ AllWellFormed items
  | .literal _ | .position _ | .flag _ | .nil => True

/-- All of some slots are well-formed. -/
def AllWellFormed : List Slot → Prop
  | [] => True
  | s :: rest => s.WellFormed ∧ AllWellFormed rest

end

end Slot

namespace Json

/-- The items are two natural numbers below `2 ^ 32`. -/
def IsPlace (items : List Json) : Prop :=
  ∃ line column : Nat,
    line < UInt32.size ∧ column < UInt32.size ∧ items = [nat line, nat column]

mutual

/-- There is no object in the value, and no number outside an array of two numbers that is a
place. -/
def Plain : Json → Prop
  | .array items => IsPlace items ∨ AllPlain items
  | .number _ | .object _ => False
  | .null | .bool _ | .string _ => True

/-- All of some values are plain. -/
def AllPlain : List Json → Prop
  | [] => True
  | v :: rest => v.Plain ∧ AllPlain rest

end

mutual

/-- An object occurs in the value, at whatever depth. -/
def HoldsObject : Json → Prop
  | .object _ => True
  | .array items => AnyHoldsObject items
  | .null | .bool _ | .number _ | .string _ => False

/-- An object occurs in some of the values. -/
def AnyHoldsObject : List Json → Prop
  | [] => False
  | v :: rest => v.HoldsObject ∨ AnyHoldsObject rest

end

end Json

/-! ### Positions -/

namespace Position

theorem ofItems?_eq_none {items : List Json} (h : ∀ n, items.head? ≠ some (.number n)) :
    ofItems? items = none := by
  unfold ofItems?
  split
  · rename_i l c
    exact absurd rfl (h l)
  · rfl

theorem ofItems?_nat {line column : Nat} (hl : line < UInt32.size) (hc : column < UInt32.size) :
    ofItems? [Json.nat line, Json.nat column] =
      some ⟨UInt32.ofNat line, UInt32.ofNat column⟩ := by
  have hbounds : (0 : Int) ≤ line ∧ (line : Int) < positionBound ∧ (0 : Int) ≤ column ∧
      (column : Int) < positionBound := by
    unfold positionBound
    simp only [UInt32.size] at hl hc
    omega
  simp only [ofItems?, Json.nat, ofNumbers?, if_pos hbounds, Int.toNat_natCast]

theorem eq_of_ofItems? {items : List Json} {place : Position} (h : ofItems? items = some place) :
    ∃ l c, items = [.number l, .number c] := by
  unfold ofItems? at h
  split at h
  · exact ⟨_, _, rfl⟩
  · cases h

end Position

namespace Slot

/-! ### What is written -/

theorem render_ne_number (c : Slot) (n : JsonNumber) : c.render ≠ .number n := by
  cases c <;> simp [render]

theorem eq_literal_of_render {c : Slot} {text : String} (h : c.render = .string text) :
    c = .literal text := by
  cases c <;> simp_all [render]

theorem head?_renderItems (items : List Slot) :
    (renderItems items).head? = items.head?.map render := by
  cases items <;> rfl

theorem isPlace_position (place : Position) :
    Json.IsPlace [Json.nat place.line.toNat, Json.nat place.column.toNat] :=
  ⟨_, _, place.line.toNat_lt_size, place.column.toNat_lt_size, rfl⟩

mutual

/-- **Only plain values are written.** -/
theorem plain_render : (c : Slot) → c.render.Plain
  | .node kind children => by
    rw [render]
    exact .inr ⟨trivial, allPlain_renderItems children⟩
  | .list items => by
    rw [render]
    exact .inr (allPlain_renderItems items)
  | .position place => by
    rw [render]
    exact .inl (isPlace_position place)
  | .literal _ | .flag _ | .nil => by simp [render, Json.Plain]

theorem allPlain_renderItems : (items : List Slot) → Json.AllPlain (renderItems items)
  | [] => trivial
  | s :: rest => ⟨plain_render s, allPlain_renderItems rest⟩

end

/-- A list of slots is written as an array, or as the array of a node when it starts with a
literal; either way there is a well-formed slot for that array. -/
theorem exists_render_eq_array {items : List Slot} (h : AllWellFormed items) :
    ∃ c : Slot, c.WellFormed ∧ c.render = .array (renderItems items) := by
  by_cases hhead : ∃ text, items.head? = some (.literal text)
  · obtain ⟨text, htext⟩ := hhead
    obtain ⟨rest, rfl⟩ := List.head?_eq_some_iff.1 htext
    refine ⟨.node (Kind.ofTag text) rest, ⟨by rw [Kind.tag_ofTag], h.2⟩, ?_⟩
    rw [render, Kind.tag_ofTag, renderItems, render]
  · push Not at hhead
    exact ⟨.list items, ⟨hhead, h⟩, rfl⟩

mutual

/-- **Every plain value is written for some well-formed slot.** -/
theorem exists_render_eq : (v : Json) → v.Plain → ∃ c : Slot, c.WellFormed ∧ c.render = v
  | .null, _ => ⟨.nil, trivial, rfl⟩
  | .bool value, _ => ⟨.flag value, trivial, rfl⟩
  | .string text, _ => ⟨.literal text, trivial, rfl⟩
  | .array items, .inl hplace => by
    obtain ⟨line, column, hl, hc, rfl⟩ := hplace
    refine ⟨.position ⟨UInt32.ofNat line, UInt32.ofNat column⟩, trivial, ?_⟩
    rw [render, UInt32.toNat_ofNat_of_lt' hl, UInt32.toNat_ofNat_of_lt' hc]
  | .array items, .inr hitems => by
    obtain ⟨slots, hslots, rfl⟩ := exists_renderItems_eq items hitems
    exact exists_render_eq_array hslots

theorem exists_renderItems_eq : (items : List Json) → Json.AllPlain items →
    ∃ slots, AllWellFormed slots ∧ renderItems slots = items
  | [], _ => ⟨[], trivial, rfl⟩
  | v :: rest, ⟨hv, hrest⟩ => by
    obtain ⟨c, hc, rfl⟩ := exists_render_eq v hv
    obtain ⟨slots, hslots, rfl⟩ := exists_renderItems_eq rest hrest
    exact ⟨c :: slots, ⟨hc, hslots⟩, rfl⟩

end

/-! ### What is read -/

theorem decode_untagged {items : List Json} (h : ∀ tag, items.head? ≠ some (.string tag)) :
    decode (.array items) =
      match Position.ofItems? items with
      | some place => .ok (.position place)
      | none => (decodeItems items).map .list := by
  cases items with
  | nil => rfl
  | cons item rest =>
    cases item with
    | string tag => exact absurd rfl (h tag)
    | _ => rfl

theorem decode_position (place : Position) :
    decode (.array [Json.nat place.line.toNat, Json.nat place.column.toNat]) =
      .ok (.position place) := by
  have hplace := Position.ofItems?_nat place.line.toNat_lt_size place.column.toNat_lt_size
  rw [decode_untagged (by rintro tag ⟨⟩), hplace]
  simp

mutual

/-- **A well-formed slot is read back as it was.** -/
theorem decode_render : (c : Slot) → c.WellFormed → decode c.render = .ok c
  | .node kind children, ⟨hkind, hchildren⟩ => by
    rw [render, decode, decodeItems_renderItems children hchildren, hkind]
    rfl
  | .list items, ⟨hhead, hitems⟩ => by
    have hstring : ∀ tag, (renderItems items).head? ≠ some (.string tag) := by
      intro tag htag
      rw [head?_renderItems, Option.map_eq_some_iff] at htag
      obtain ⟨c, hc, hrender⟩ := htag
      exact hhead tag (eq_literal_of_render hrender ▸ hc)
    -- nothing is written as a bare number, so the array is not taken for a position
    have hplace : Position.ofItems? (renderItems items) = none := by
      refine Position.ofItems?_eq_none fun n hn => ?_
      rw [head?_renderItems, Option.map_eq_some_iff] at hn
      obtain ⟨c, -, hrender⟩ := hn
      exact render_ne_number c n hrender
    rw [render, decode_untagged hstring, hplace, decodeItems_renderItems items hitems]
    rfl
  | .position place, _ => by
    rw [render]
    exact decode_position place
  | .literal _, _ | .flag _, _ | .nil, _ => rfl

theorem decodeItems_renderItems : (items : List Slot) → AllWellFormed items →
    decodeItems (renderItems items) = .ok items
  | [], _ => rfl
  | s :: rest, ⟨hs, hrest⟩ => by
    rw [renderItems, decodeItems, decode_render s hs, decodeItems_renderItems rest hrest]
    rfl

end

/-! ### What cannot be read -/

/-- The outcome is a failure. -/
def Fails {α : Type} (outcome : Except DumpError α) : Prop := ∃ e, outcome = .error e

theorem fails_map_iff {α β : Type} {f : α → β} {outcome : Except DumpError α} :
    Fails (outcome.map f) ↔ Fails outcome := by
  cases outcome <;> simp [Fails, Except.map]

theorem fails_decodeItems_cons {v : Json} {rest : List Json} :
    Fails (decodeItems (v :: rest)) ↔ Fails (decode v) ∨ Fails (decodeItems rest) := by
  rw [decodeItems]
  cases decode v with
  | error e => simp [Fails, Bind.bind, Except.bind]
  | ok c => cases decodeItems rest <;> simp [Fails, Bind.bind, Except.bind]

/-- Whatever an array is read as, it can be read exactly when its items can. -/
theorem fails_decode_array (items : List Json) :
    Fails (decode (.array items)) ↔ Fails (decodeItems items) := by
  by_cases hstring : ∃ tag, items.head? = some (.string tag)
  · obtain ⟨tag, htag⟩ := hstring
    obtain ⟨rest, rfl⟩ := List.head?_eq_some_iff.1 htag
    rw [decode, fails_map_iff, fails_decodeItems_cons]
    simp [Fails, decode]
  · push Not at hstring
    rw [decode_untagged hstring]
    cases hplace : Position.ofItems? items with
    | some place =>
      obtain ⟨l, c, rfl⟩ := Position.eq_of_ofItems? hplace
      simp [Fails, decodeItems, decode, Bind.bind, Except.bind]
    | none => exact fails_map_iff

mutual

/-- **Nothing but an object makes a value unreadable.** -/
theorem decode_fails_iff : (v : Json) → (Fails (decode v) ↔ v.HoldsObject)
  | .array items => (fails_decode_array items).trans (decodeItems_fails_iff items)
  | .object _ => by simp [Fails, decode, Json.HoldsObject]
  | .null | .bool _ | .number _ | .string _ => by simp [Fails, decode, Json.HoldsObject]

theorem decodeItems_fails_iff : (items : List Json) →
    (Fails (decodeItems items) ↔ Json.AnyHoldsObject items)
  | [] => by simp [Fails, decodeItems, Json.AnyHoldsObject]
  | v :: rest =>
    fails_decodeItems_cons.trans (or_congr (decode_fails_iff v) (decodeItems_fails_iff rest))

end

/-- **Reading is a bijection from the plain values to the well-formed slots, and writing is its
inverse.**  A well-formed slot is read back as it was written, a plain value is written back as it
was read, and only plain values are written.  Every kind with a tag of its own may stand in a
well-formed slot.  An arbitrary value cannot be read exactly when an object occurs in it. -/
theorem decode_inverts_render :
    (∀ c : Slot, c.WellFormed → decode c.render = .ok c) ∧
    (∀ v : Json, v.Plain → ∃ c : Slot, decode v = .ok c ∧ c.WellFormed ∧ c.render = v) ∧
    (∀ c : Slot, c.render.Plain) ∧
    (∀ k ∈ Kind.named, Kind.ofTag k.tag = k) ∧
    ∀ v : Json, (∃ e, decode v = .error e) ↔ v.HoldsObject := by
  refine ⟨decode_render, fun v hv => ?_, plain_render, fun k => Kind.ofTag_tag, decode_fails_iff⟩
  obtain ⟨c, hc, rfl⟩ := exists_render_eq v hv
  exact ⟨c, decode_render c hc, hc, rfl⟩

/-- A class without a body, and an object below it in an array. -/
theorem decode_inverts_render_class :
    let c : Slot := .node .classDef [.node .constRef [.node .const [.literal "Foo",
      .position ⟨1, 6⟩]], .nil, .node .bodyStmt [.list [.node .voidStmt []], .nil, .nil, .nil]]
    c.WellFormed ∧ decode c.render = .ok c ∧ c.render.Plain ∧
      ∃ e, decode (.array [c.render, .array [.null, .object []]]) = .error e := by
  intro c
  obtain ⟨hread, -, hplain, hkind, hfails⟩ := decode_inverts_render
  have hc : c.WellFormed := by
    simp only [c, WellFormed, AllWellFormed, List.head?_cons, Option.some.injEq, reduceCtorEq,
      not_false_eq_true, implies_true, ne_eq, true_and, and_true]
    exact ⟨hkind _ (by decide), ⟨hkind _ (by decide), hkind _ (by decide)⟩,
      hkind _ (by decide), hkind _ (by decide)⟩
  exact ⟨hc, hread c hc, hplain c, (hfails _).2 (.inr (.inl (.inr (.inl trivial))))⟩

-- A list that starts with a literal is read back as a node, and numbers that are no position, such
-- as one below zero, as their texts.
example : decode (render (.list [.literal "begin"])) = .ok (.node .beginStmt []) := rfl

example : (decode (.array [Json.nat 1, .number (.integer (-1))])).map render =
    .ok (.array [.string "1", .string "-1"]) := rfl

end Slot

end LoadOrder
