import Mathlib.Tactic
import StackScript.Program.Decode

set_option autoImplicit false

/-!
# The format of programs

What a JSON value must look like to represent a program, said without a decoder. A node is an object
that gives none of its known fields twice, whatever else it holds and in whatever order, or an array
of its fields in their fixed order, with none behind them (`Node`). Positions, the arguments of a
call, the source of a program and the value of an arm may be left out, of an array only at its end;
null stands for a source and for the value of an arm, and for nothing else. An expression or a
statement is an object with one field, whose key says which node it holds. The main statement is
`Program.ofJson?_iff_represents`: decoding accepts exactly the values that represent a program, and
yields that program.
-/

namespace StackScript.Program

namespace Format

/-! ## Nodes -/

/-- What the fields of an object say about a name: the value of the only field with that name, or
that there is none. -/
inductive Field (given : List (String × Json)) (name : String) : Option Json → Prop
  | present {before after : List (String × Json)} {v : Json}
      (hgiven : given = before ++ (name, v) :: after) (hbefore : ∀ entry ∈ before, entry.1 ≠ name)
      (hafter : ∀ entry ∈ after, entry.1 ≠ name) : Field given name (some v)
  | absent (habsent : ∀ entry ∈ given, entry.1 ≠ name) : Field given name none

/-- A node holds values for the names of its fields, and nothing for those that are left out. -/
inductive Node (names : List String) : Json → List (Option Json) → Prop
  | object {given : List (String × Json)} {values : List (Option Json)}
      (hvalues : List.Forall₂ (Field given) names values) : Node names (.object given) values
  | array {elements : List Json} {missing : Nat}
      (hlength : elements.length + missing = names.length) :
      Node names (.array elements) (elements.map some ++ List.replicate missing none)

/-! ## The parts of a program -/

/-- A position has both its numbers, as integers of 32 bits. -/
inductive IsPosition : Json → Position → Prop
  | node {v : Json} {line column : UInt32}
      (hnode : Node ["line", "column"] v [some (.ofNat line.toNat), some (.ofNat column.toNat)]) :
      IsPosition v ⟨line, column⟩

/-- A position that is left out is `0:0`. -/
inductive PositionField : Option Json → Position → Prop
  | absent : PositionField none ⟨0, 0⟩
  | present {v : Json} {p : Position} (h : IsPosition v p) : PositionField (some v) p

/-- A value represents an expression. -/
inductive IsExpr : Json → Expr → Prop
  | binary {node left right : Json} {position : Option Json} {l r : Expr} {operator : String}
      {p : Position}
      (hnode : Node ["left", "operator", "right", "position"] node
        [some left, some (.string operator), some right, position])
      (hleft : IsExpr left l) (hright : IsExpr right r) (hposition : PositionField position p) :
      IsExpr (.object [("Binary", node)]) (.binary l operator r p)
  | call {node callee : Json} {elements : List Json} {position : Option Json} {c : Expr}
      {arguments : List Expr} {p : Position}
      (hnode : Node ["callee", "arguments", "position"] node
        [some callee, some (.array elements), position])
      (hcallee : IsExpr callee c) (harguments : List.Forall₂ IsExpr elements arguments)
      (hposition : PositionField position p) :
      IsExpr (.object [("Call", node)]) (.call c arguments p)
  | callWithout {node callee : Json} {position : Option Json} {c : Expr} {p : Position}
      (hnode : Node ["callee", "arguments", "position"] node [some callee, none, position])
      (hcallee : IsExpr callee c) (hposition : PositionField position p) :
      IsExpr (.object [("Call", node)]) (.call c [] p)
  | parens {node inner : Json} {position : Option Json} {e : Expr} {p : Position}
      (hnode : Node ["inner", "position"] node [some inner, position]) (hinner : IsExpr inner e)
      (hposition : PositionField position p) :
      IsExpr (.object [("Parentheses", node)]) (.parens e p)
  | number {node : Json} {position : Option Json} {literal : String} {p : Position}
      (hnode : Node ["literal", "position"] node [some (.string literal), position])
      (hposition : PositionField position p) :
      IsExpr (.object [("Number", node)]) (.number literal p)
  | identifier {node : Json} {position : Option Json} {name : String} {p : Position}
      (hnode : Node ["name", "position"] node [some (.string name), position])
      (hposition : PositionField position p) :
      IsExpr (.object [("Identifier", node)]) (.identifier name p)
  | member {node object : Json} {position : Option Json} {e : Expr} {name : String} {p : Position}
      (hnode : Node ["object", "member", "position"] node
        [some object, some (.string name), position])
      (hobject : IsExpr object e) (hposition : PositionField position p) :
      IsExpr (.object [("MemberAccess", node)]) (.member e name p)

mutual

/-- A value represents a statement. -/
inductive IsStmt : Json → Stmt → Prop
  | ifThen {node condition block : Json} {position : Option Json} {e : Expr} {body : List Stmt}
      {p : Position}
      (hnode : Node ["condition", "body", "position"] node [some condition, some block, position])
      (hcondition : IsExpr condition e) (hbody : IsBlock block body)
      (hposition : PositionField position p) :
      IsStmt (.object [("If", node)]) (.ifThen e body p)
  | whileDo {node condition block : Json} {position : Option Json} {e : Expr} {body : List Stmt}
      {p : Position}
      (hnode : Node ["condition", "body", "position"] node [some condition, some block, position])
      (hcondition : IsExpr condition e) (hbody : IsBlock block body)
      (hposition : PositionField position p) :
      IsStmt (.object [("While", node)]) (.whileDo e body p)
  | switch {node condition : Json} {elements : List Json} {position : Option Json} {e : Expr}
      {arms : List Arm} {p : Position}
      (hnode : Node ["condition", "bodies", "position"] node
        [some condition, some (.array elements), position])
      (hcondition : IsExpr condition e) (harms : List.Forall₂ IsArm elements arms)
      (hposition : PositionField position p) :
      IsStmt (.object [("Switch", node)]) (.switch e arms p)
  | expression {node value : Json} {position : Option Json} {e : Expr} {p : Position}
      (hnode : Node ["expr", "position"] node [some value, position]) (hvalue : IsExpr value e)
      (hposition : PositionField position p) :
      IsStmt (.object [("Expression", node)]) (.expression e p)
  | declare {node value : Json} {position : Option Json} {name : String} {e : Expr} {p : Position}
      (hnode : Node ["name", "expr", "position"] node [some (.string name), some value, position])
      (hvalue : IsExpr value e) (hposition : PositionField position p) :
      IsStmt (.object [("VariableDeclaration", node)]) (.declare name e p)
  | assign {node value : Json} {position : Option Json} {name : String} {e : Expr} {p : Position}
      (hnode : Node ["name", "expr", "position"] node [some (.string name), some value, position])
      (hvalue : IsExpr value e) (hposition : PositionField position p) :
      IsStmt (.object [("VariableAssignment", node)]) (.assign name e p)

/-- A value represents a block of statements. -/
inductive IsBlock : Json → List Stmt → Prop
  | node {v : Json} {elements : List Json} {body : List Stmt}
      (hnode : Node ["statements"] v [some (.array elements)])
      (hbody : List.Forall₂ IsStmt elements body) : IsBlock v body

/-- A value represents an arm of a switch. -/
inductive IsArm : Json → Arm → Prop
  | case {v value block : Json} {e : Expr} {body : List Stmt}
      (hnode : Node ["case_value", "block"] v [some value, some block]) (hvalue : IsExpr value e)
      (hblock : IsBlock block body) : IsArm v (.case e body)
  | otherwise {v block : Json} {value : Option Json} {body : List Stmt}
      (hnode : Node ["case_value", "block"] v [value, some block])
      (hvalue : value = none ∨ value = some .null) (hblock : IsBlock block body) :
      IsArm v (.otherwise body)

end

/-- The path of a source may be left out or null. -/
inductive SourceField : Option Json → Option String → Prop
  | absent : SourceField none none
  | null : SourceField (some .null) none
  | present {path : String} : SourceField (some (.string path)) (some path)

/-- A value represents a program. -/
inductive Represents : Json → Program → Prop
  | node {v : Json} {source : Option Json} {elements : List Json} {path : Option String}
      {statements : List Stmt}
      (hnode : Node ["source", "statements"] v [source, some (.array elements)])
      (hsource : SourceField source path)
      (hstatements : List.Forall₂ IsStmt elements statements) : Represents v ⟨path, statements⟩

open Decode

/-! ## Decoding nodes -/

/-- Elements decode in order if each of them does. -/
theorem mapM_eq_some_iff {α β : Type} {f : α → Option β} {R : α → β → Prop} {xs : List α}
    {ys : List β} (h : ∀ x ∈ xs, ∀ y, f x = some y ↔ R x y) :
    xs.mapM f = some ys ↔ List.Forall₂ R xs ys := by
  induction xs generalizing ys with
  | nil =>
    rw [List.mapM_nil, List.forall₂_nil_left_iff]
    exact ⟨fun h => (Option.some.inj h).symm, fun h => congrArg some h.symm⟩
  | cons x xs ih =>
    have hrest : ∀ ys', xs.mapM f = some ys' ↔ List.Forall₂ R xs ys' :=
      fun _ => ih fun x' hx' => h x' (List.mem_cons_of_mem x hx')
    rw [List.mapM_cons, List.forall₂_cons_left_iff]
    simp only [Option.bind_eq_bind, Option.bind_eq_some_iff, Option.pure_def, Option.some.injEq]
    constructor
    · rintro ⟨y, hy, ys', hys', rfl⟩
      exact ⟨y, ys', (h x List.mem_cons_self y).1 hy, (hrest ys').1 hys', rfl⟩
    · rintro ⟨y, ys', hy, hys', rfl⟩
      exact ⟨y, (h x List.mem_cons_self y).2 hy, ys', (hrest ys').2 hys', rfl⟩

theorem field?_eq_some_iff {given : List (String × Json)} {name : String} {value : Option Json} :
    field? given name = some value ↔ Field given name value := by
  constructor
  · intro h
    unfold field? at h
    split at h
    · next hnone =>
      cases h
      apply Field.absent
      simpa [List.filter_eq_nil_iff] using hnone
    · next key v hone =>
      cases h
      obtain ⟨before, after, hgiven, hbefore, hkey, hafter⟩ := List.filter_eq_cons_iff.1 hone
      have hname : key = name := by simpa using hkey
      subst hname
      apply Field.present hgiven
      · simpa using hbefore
      · simpa [List.filter_eq_nil_iff] using hafter
    · cases h
  · rintro (⟨rfl, hbefore, hafter⟩ | habsent)
    · next before after v =>
      have hkept : (before ++ (name, v) :: after).filter (fun entry => entry.1 == name) =
          [(name, v)] := by
        rw [List.filter_append, List.filter_eq_nil_iff.2 (by simpa using hbefore),
          List.filter_cons_of_pos (by simp), List.filter_eq_nil_iff.2 (by simpa using hafter)]
        rfl
      simp only [field?, hkept]
    · have hkept : given.filter (fun entry => entry.1 == name) = [] := by
        rw [List.filter_eq_nil_iff]
        simpa using habsent
      simp only [field?, hkept]

/-- The fields of a node are read as the format says. -/
theorem fields?_eq_some_iff {names : List String} {v : Json} {values : List (Option Json)} :
    fields? names v = some values ↔ Node names v values := by
  constructor
  · intro h
    cases v with
    | object given =>
      apply Node.object
      exact (mapM_eq_some_iff fun name _ value => field?_eq_some_iff).1 h
    | array elements =>
      simp only [fields?] at h
      split at h
      · next hle =>
        cases h
        exact .array (Nat.add_sub_cancel' hle)
      · cases h
    | null | bool b | number n | string s | garbled => cases h
  · rintro (hvalues | hlength)
    · exact (mapM_eq_some_iff fun name _ value => field?_eq_some_iff).2 hvalues
    · next elements missing =>
      have hle : elements.length ≤ names.length := by omega
      have hmissing : names.length - elements.length = missing := by omega
      simp only [fields?, if_pos hle, hmissing]

/-! ## Nesting -/

theorem depth_le_of_mem_elements {v : Json} {elements : List Json} (h : v ∈ elements) :
    v.depth ≤ Json.depthOfElements elements := by
  induction elements with
  | nil => cases h
  | cons first rest ih =>
    rw [Json.depthOfElements]
    rcases List.mem_cons.1 h with rfl | h
    · exact le_max_left _ _
    · exact (ih h).trans (le_max_right _ _)

theorem depth_le_of_mem_fields {key : String} {v : Json} {fields : List (String × Json)}
    (h : (key, v) ∈ fields) : v.depth ≤ Json.depthOfFields fields := by
  induction fields with
  | nil => cases h
  | cons first rest ih =>
    obtain ⟨firstKey, first⟩ := first
    rw [Json.depthOfFields]
    rcases List.mem_cons.1 h with heq | h
    · cases heq
      exact le_max_left _ _
    · exact (ih h).trans (le_max_right _ _)

theorem exists_field_of_mem {given : List (String × Json)} {names : List String}
    {values : List (Option Json)} {value : Option Json}
    (h : List.Forall₂ (Field given) names values) (hmem : value ∈ values) :
    ∃ name, Field given name value := by
  induction h with
  | nil => cases hmem
  | cons hfirst _ ih =>
    rcases List.mem_cons.1 hmem with rfl | hmem
    · exact ⟨_, hfirst⟩
    · exact ih hmem

section

variable {names : List String} {v x : Json} {values : List (Option Json)}

/-- What a node holds is less deep than the node. -/
theorem Node.depth_lt (h : Node names v values) (hx : some x ∈ values) : x.depth < v.depth := by
  rcases h with hvalues | hlength
  · obtain ⟨name, hfield⟩ := exists_field_of_mem hvalues hx
    rcases hfield with ⟨rfl, -, -⟩
    rw [Json.depth]
    apply Nat.lt_succ_of_le
    exact depth_le_of_mem_fields (List.mem_append_right _ List.mem_cons_self)
  · rw [Json.depth]
    apply Nat.lt_succ_of_le
    apply depth_le_of_mem_elements
    simpa using hx

theorem Node.depth_pos (h : Node names v values) : 0 < v.depth := by
  rcases h with - | -
  · rw [Json.depth]
    exact Nat.succ_pos _
  · rw [Json.depth]
    exact Nat.succ_pos _

theorem depth_tagged (tag : String) (v : Json) :
    (Json.object [(tag, v)]).depth = v.depth + 1 := by
  simp [Json.depth, Json.depthOfFields]

/-- A node under its tag leaves room for what it holds. -/
theorem Node.room_of_tagged {tag : String} {room : Nat} (h : Node names v values)
    (hroom : (Json.object [(tag, v)]).depth ≤ room) :
    ∃ rest, room = rest + 2 ∧ ∀ x, some x ∈ values → x.depth ≤ rest := by
  have hpos := h.depth_pos
  rw [depth_tagged] at hroom
  refine ⟨room - 2, by omega, fun x hx => ?_⟩
  have hlt := h.depth_lt hx
  omega

end

/-! ## Leaves -/

theorem text?_eq_some_iff {v : Json} {s : String} : text? v = some s ↔ v = .string s := by
  cases v <;> simp [text?]

theorem word?_eq_some_iff {v : Json} {n : UInt32} : word? v = some n ↔ v = .ofNat n.toNat := by
  constructor
  · intro h
    unfold word? at h
    split at h
    · next k hk =>
      split at h
      · next hlt =>
        cases h
        unfold Json.nat? at hk
        split at hk
        · cases hk
          rw [Json.ofNat]
          simp [Nat.mod_eq_of_lt hlt]
        · cases hk
      · cases h
    · cases h
  · rintro rfl
    have hlt : n.toNat < 4294967296 := n.toNat_lt
    simp [word?, Json.ofNat, Json.nat?, hlt]

theorem word?_toNat (n : UInt32) : word? (.ofNat n.toNat) = some n := word?_eq_some_iff.2 rfl

/-- A position takes one unit of room. -/
theorem position?_eq_some_iff {room : Nat} {v : Json} {p : Position} :
    position? room v = some p ↔ 0 < room ∧ IsPosition v p := by
  constructor
  · intro h
    unfold position? at h
    split at h
    · next line column hfields =>
      simp only [Option.bind_eq_bind, Option.bind_eq_some_iff, Option.pure_def,
        Option.some.injEq] at h
      obtain ⟨l, hl, c, hc, rfl⟩ := h
      rw [word?_eq_some_iff.1 hl, word?_eq_some_iff.1 hc] at hfields
      exact ⟨Nat.succ_pos _, .node (fields?_eq_some_iff.1 hfields)⟩
    · cases h
  · rintro ⟨hroom, ⟨hnode⟩⟩
    next line column =>
    obtain ⟨rest, rfl⟩ : ∃ rest, room = rest + 1 := ⟨room - 1, by omega⟩
    simp only [position?, fields?_eq_some_iff.2 hnode, word?_toNat, Option.bind_eq_bind,
      Option.bind_some, Option.pure_def]

theorem positionField_of_positionOr? {room : Nat} {v : Option Json} {p : Position}
    (h : positionOr? room v = some p) : PositionField v p := by
  cases v with
  | none =>
    cases h
    exact .absent
  | some v => exact .present (position?_eq_some_iff.1 h).2

theorem positionOr?_of_positionField {room : Nat} {v : Option Json} {p : Position}
    (hroom : ∀ x, v = some x → x.depth ≤ room) (h : PositionField v p) :
    positionOr? room v = some p := by
  rcases h with - | ⟨hposition⟩
  · rfl
  · next v =>
    apply position?_eq_some_iff.2
    refine ⟨?_, hposition⟩
    rcases hposition with ⟨hnode⟩
    exact hnode.depth_pos.trans_le (hroom v rfl)

/-! ## Expressions -/

/-- What decodes as an expression represents it. -/
theorem isExpr_of_expr? {room : Nat} {v : Json} {e : Expr} (h : expr? room v = some e) :
    IsExpr v e := by
  induction room using Nat.strong_induction_on generalizing v e with
  | _ room ih =>
    unfold expr? at h
    split at h
    · next room tag node =>
      have hpart : ∀ {v e}, expr? room v = some e → IsExpr v e := ih room (by omega)
      split at h
      · -- a binary operation
        split at h
        · next left operator right position hfields =>
          simp only [Option.bind_eq_bind, Option.bind_eq_some_iff, Option.pure_def,
            Option.some.injEq] at h
          obtain ⟨l, hl, text, htext, r, hr, p, hp, rfl⟩ := h
          rw [text?_eq_some_iff.1 htext] at hfields
          exact .binary (fields?_eq_some_iff.1 hfields) (hpart hl) (hpart hr)
            (positionField_of_positionOr? hp)
        · cases h
      · -- a call, with or without arguments
        split at h
        · next callee arguments position hfields =>
          have hnode := fields?_eq_some_iff.1 hfields
          split at h
          · simp only [Option.bind_eq_bind, Option.bind_eq_some_iff, Option.pure_def,
              Option.some.injEq] at h
            obtain ⟨_, rfl, c, hc, p, hp, rfl⟩ := h
            exact .callWithout hnode (hpart hc) (positionField_of_positionOr? hp)
          · next room elements =>
            simp only [Option.bind_eq_bind, Option.bind_eq_some_iff, Option.pure_def,
              Option.some.injEq] at h
            obtain ⟨as, has, c, hc, p, hp, rfl⟩ := h
            have helements : List.Forall₂ IsExpr elements as := by
              apply List.Forall₂.imp (fun _ _ => ih room (by omega))
              exact (mapM_eq_some_iff fun _ _ _ => Iff.rfl).1 has
            exact .call hnode (hpart hc) helements (positionField_of_positionOr? hp)
          · cases h
        · cases h
      · -- an expression in parentheses
        split at h
        · next inner position hfields =>
          simp only [Option.bind_eq_bind, Option.bind_eq_some_iff, Option.pure_def,
            Option.some.injEq] at h
          obtain ⟨e, he, p, hp, rfl⟩ := h
          exact .parens (fields?_eq_some_iff.1 hfields) (hpart he)
            (positionField_of_positionOr? hp)
        · cases h
      · -- a number
        split at h
        · next literal position hfields =>
          simp only [Option.bind_eq_bind, Option.bind_eq_some_iff, Option.pure_def,
            Option.some.injEq] at h
          obtain ⟨text, htext, p, hp, rfl⟩ := h
          rw [text?_eq_some_iff.1 htext] at hfields
          exact .number (fields?_eq_some_iff.1 hfields) (positionField_of_positionOr? hp)
        · cases h
      · -- an identifier
        split at h
        · next name position hfields =>
          simp only [Option.bind_eq_bind, Option.bind_eq_some_iff, Option.pure_def,
            Option.some.injEq] at h
          obtain ⟨text, htext, p, hp, rfl⟩ := h
          rw [text?_eq_some_iff.1 htext] at hfields
          exact .identifier (fields?_eq_some_iff.1 hfields) (positionField_of_positionOr? hp)
        · cases h
      · -- a member access
        split at h
        · next object member position hfields =>
          simp only [Option.bind_eq_bind, Option.bind_eq_some_iff, Option.pure_def,
            Option.some.injEq] at h
          obtain ⟨e, he, text, htext, p, hp, rfl⟩ := h
          rw [text?_eq_some_iff.1 htext] at hfields
          exact .member (fields?_eq_some_iff.1 hfields) (hpart he)
            (positionField_of_positionOr? hp)
        · cases h
      · cases h
    · cases h

/-- What represents an expression decodes, if there is room for its nesting. -/
theorem expr?_of_isExpr {room : Nat} {v : Json} {e : Expr} (hroom : v.depth ≤ room)
    (h : IsExpr v e) : expr? room v = some e := by
  induction room using Nat.strong_induction_on generalizing v e with
  | _ room ih =>
    cases h with
    | @binary node left right position l r operator p hnode hleft hright hposition =>
      obtain ⟨rest, rfl, hdepth⟩ := hnode.room_of_tagged hroom
      have hl := ih rest (by omega) (hdepth left (by simp)) hleft
      have hr := ih rest (by omega) (hdepth right (by simp)) hright
      have hp := positionOr?_of_positionField (fun x hx => hdepth x (by simp [hx])) hposition
      simp only [expr?, fields?_eq_some_iff.2 hnode, hl, hr, hp, text?, Option.bind_eq_bind,
        Option.bind_some, Option.pure_def]
    | @call node callee elements position c arguments p hnode hcallee harguments hposition =>
      obtain ⟨rest, rfl, hdepth⟩ := hnode.room_of_tagged hroom
      have hc := ih rest (by omega) (hdepth callee (by simp)) hcallee
      have hp := positionOr?_of_positionField (fun x hx => hdepth x (by simp [hx])) hposition
      -- the array of arguments takes a unit of room for itself
      have hle : Json.depthOfElements elements + 1 ≤ rest := hdepth (.array elements) (by simp)
      obtain ⟨inside, rfl⟩ : ∃ inside, rest = inside + 1 := ⟨rest - 1, by omega⟩
      have has : elements.mapM (expr? inside) = some arguments := by
        refine (mapM_eq_some_iff fun x hx y => ⟨isExpr_of_expr?, fun hy => ?_⟩).2 harguments
        have hin := depth_le_of_mem_elements hx
        exact ih inside (by omega) (by omega) hy
      simp only [expr?, fields?_eq_some_iff.2 hnode, hc, has, hp, Option.bind_eq_bind,
        Option.bind_some, Option.pure_def]
    | @callWithout node callee position c p hnode hcallee hposition =>
      obtain ⟨rest, rfl, hdepth⟩ := hnode.room_of_tagged hroom
      have hc := ih rest (by omega) (hdepth callee (by simp)) hcallee
      have hp := positionOr?_of_positionField (fun x hx => hdepth x (by simp [hx])) hposition
      simp only [expr?, fields?_eq_some_iff.2 hnode, hc, hp, Option.bind_eq_bind,
        Option.bind_some, Option.pure_def]
    | @parens node inner position e p hnode hinner hposition =>
      obtain ⟨rest, rfl, hdepth⟩ := hnode.room_of_tagged hroom
      have he := ih rest (by omega) (hdepth inner (by simp)) hinner
      have hp := positionOr?_of_positionField (fun x hx => hdepth x (by simp [hx])) hposition
      simp only [expr?, fields?_eq_some_iff.2 hnode, he, hp, Option.bind_eq_bind,
        Option.bind_some, Option.pure_def]
    | @number node position literal p hnode hposition =>
      obtain ⟨rest, rfl, hdepth⟩ := hnode.room_of_tagged hroom
      have hp := positionOr?_of_positionField (fun x hx => hdepth x (by simp [hx])) hposition
      simp only [expr?, fields?_eq_some_iff.2 hnode, hp, text?, Option.bind_eq_bind,
        Option.bind_some, Option.pure_def]
    | @identifier node position name p hnode hposition =>
      obtain ⟨rest, rfl, hdepth⟩ := hnode.room_of_tagged hroom
      have hp := positionOr?_of_positionField (fun x hx => hdepth x (by simp [hx])) hposition
      simp only [expr?, fields?_eq_some_iff.2 hnode, hp, text?, Option.bind_eq_bind,
        Option.bind_some, Option.pure_def]
    | @member node object position e name p hnode hobject hposition =>
      obtain ⟨rest, rfl, hdepth⟩ := hnode.room_of_tagged hroom
      have he := ih rest (by omega) (hdepth object (by simp)) hobject
      have hp := positionOr?_of_positionField (fun x hx => hdepth x (by simp [hx])) hposition
      simp only [expr?, fields?_eq_some_iff.2 hnode, he, hp, text?, Option.bind_eq_bind,
        Option.bind_some, Option.pure_def]

/-! ## Statements -/

/-- What decodes as a statement represents it, if that is so for its blocks and arms. -/
theorem isStmt_of_parts {room : Nat} {v : Json} {s : Stmt}
    (hblock : ∀ {v body}, block? room v = some body → IsBlock v body)
    (harm : ∀ {room' v a}, room' < room → arm? room' v = some a → IsArm v a)
    (h : stmt? (room + 2) v = some s) : IsStmt v s := by
  unfold stmt? at h
  split at h
  · next room' tag node hroom =>
    cases hroom
    split at h
    · -- a conditional
      split at h
      · next condition body position hfields =>
        simp only [Option.bind_eq_bind, Option.bind_eq_some_iff, Option.pure_def,
          Option.some.injEq] at h
        obtain ⟨e, he, b, hb, p, hp, rfl⟩ := h
        exact .ifThen (fields?_eq_some_iff.1 hfields) (isExpr_of_expr? he) (hblock hb)
          (positionField_of_positionOr? hp)
      · cases h
    · -- a loop
      split at h
      · next condition body position hfields =>
        simp only [Option.bind_eq_bind, Option.bind_eq_some_iff, Option.pure_def,
          Option.some.injEq] at h
        obtain ⟨e, he, b, hb, p, hp, rfl⟩ := h
        exact .whileDo (fields?_eq_some_iff.1 hfields) (isExpr_of_expr? he) (hblock hb)
          (positionField_of_positionOr? hp)
      · cases h
    · -- a switch
      split at h
      · next condition bodies position hfields =>
        split at h
        · next inside elements =>
          simp only [Option.bind_eq_bind, Option.bind_eq_some_iff, Option.pure_def,
            Option.some.injEq] at h
          obtain ⟨as, has, e, he, p, hp, rfl⟩ := h
          have helements : List.Forall₂ IsArm elements as := by
            apply List.Forall₂.imp (fun _ _ => harm (Nat.lt_succ_self inside))
            exact (mapM_eq_some_iff fun _ _ _ => Iff.rfl).1 has
          exact .switch (fields?_eq_some_iff.1 hfields) (isExpr_of_expr? he) helements
            (positionField_of_positionOr? hp)
        · cases h
      · cases h
    · -- an expression for its effects
      split at h
      · next value position hfields =>
        simp only [Option.bind_eq_bind, Option.bind_eq_some_iff, Option.pure_def,
          Option.some.injEq] at h
        obtain ⟨e, he, p, hp, rfl⟩ := h
        exact .expression (fields?_eq_some_iff.1 hfields) (isExpr_of_expr? he)
          (positionField_of_positionOr? hp)
      · cases h
    · -- a declaration
      split at h
      · next name value position hfields =>
        simp only [Option.bind_eq_bind, Option.bind_eq_some_iff, Option.pure_def,
          Option.some.injEq] at h
        obtain ⟨text, htext, e, he, p, hp, rfl⟩ := h
        rw [text?_eq_some_iff.1 htext] at hfields
        exact .declare (fields?_eq_some_iff.1 hfields) (isExpr_of_expr? he)
          (positionField_of_positionOr? hp)
      · cases h
    · -- an assignment
      split at h
      · next name value position hfields =>
        simp only [Option.bind_eq_bind, Option.bind_eq_some_iff, Option.pure_def,
          Option.some.injEq] at h
        obtain ⟨text, htext, e, he, p, hp, rfl⟩ := h
        rw [text?_eq_some_iff.1 htext] at hfields
        exact .assign (fields?_eq_some_iff.1 hfields) (isExpr_of_expr? he)
          (positionField_of_positionOr? hp)
      · cases h
    · cases h
  · cases h

theorem isBlock_of_parts {room : Nat} {v : Json} {body : List Stmt}
    (hstmt : ∀ {v s}, stmt? room v = some s → IsStmt v s) (h : block? (room + 2) v = some body) :
    IsBlock v body := by
  unfold block? at h
  split at h
  · next elements hfields =>
    apply IsBlock.node (fields?_eq_some_iff.1 hfields)
    apply List.Forall₂.imp (fun _ _ => hstmt)
    exact (mapM_eq_some_iff fun _ _ _ => Iff.rfl).1 h
  · cases h

theorem isArm_of_parts {room : Nat} {v : Json} {a : Arm}
    (hblock : ∀ {v body}, block? room v = some body → IsBlock v body)
    (h : arm? (room + 1) v = some a) : IsArm v a := by
  unfold arm? at h
  split at h
  · next block hfields =>
    simp only [Option.bind_eq_bind, Option.bind_eq_some_iff, Option.pure_def,
      Option.some.injEq] at h
    obtain ⟨b, hb, rfl⟩ := h
    exact .otherwise (fields?_eq_some_iff.1 hfields) (.inl rfl) (hblock hb)
  · next block hfields =>
    simp only [Option.bind_eq_bind, Option.bind_eq_some_iff, Option.pure_def,
      Option.some.injEq] at h
    obtain ⟨b, hb, rfl⟩ := h
    exact .otherwise (fields?_eq_some_iff.1 hfields) (.inr rfl) (hblock hb)
  · next value block _ hfields =>
    simp only [Option.bind_eq_bind, Option.bind_eq_some_iff, Option.pure_def,
      Option.some.injEq] at h
    obtain ⟨e, he, b, hb, rfl⟩ := h
    exact .case (fields?_eq_some_iff.1 hfields) (isExpr_of_expr? he) (hblock hb)
  · cases h

/-- What decodes as a statement, a block or an arm represents it. -/
theorem represents_of_decoded (room : Nat) :
    (∀ {v s}, stmt? room v = some s → IsStmt v s) ∧
      (∀ {v body}, block? room v = some body → IsBlock v body) ∧
      ∀ {v a}, arm? room v = some a → IsArm v a := by
  induction room using Nat.strong_induction_on with
  | _ room ih =>
    match room with
    | 0 =>
      refine ⟨fun {v s} h => ?_, fun {v body} h => ?_, fun {v a} h => ?_⟩
      · simp [stmt?] at h
      · simp [block?] at h
      · simp [arm?] at h
    | 1 =>
      refine ⟨fun {v s} h => ?_, fun {v body} h => ?_, ?_⟩
      · simp [stmt?] at h
      · simp [block?] at h
      · exact isArm_of_parts (ih 0 (by omega)).2.1
    | room + 2 =>
      refine ⟨?_, ?_, ?_⟩
      · intro v s
        apply isStmt_of_parts (ih room (by omega)).2.1
        intro room' v a hlt
        exact (ih room' (by omega)).2.2
      · exact isBlock_of_parts (ih room (by omega)).1
      · exact isArm_of_parts (ih (room + 1) (by omega)).2.1

/-- What represents a statement decodes, if that is so for its blocks and arms. -/
theorem stmt?_of_parts {room : Nat} {v : Json} {s : Stmt} (hroom : v.depth ≤ room)
    (hblock : ∀ {room' v body}, room' < room → v.depth ≤ room' → IsBlock v body →
      block? room' v = some body)
    (harm : ∀ {room' v a}, room' < room → v.depth ≤ room' → IsArm v a → arm? room' v = some a)
    (h : IsStmt v s) : stmt? room v = some s := by
  cases h with
  | @ifThen node condition block position e body p hnode hcondition hbody hposition =>
    obtain ⟨rest, rfl, hdepth⟩ := hnode.room_of_tagged hroom
    have he := expr?_of_isExpr (hdepth condition (by simp)) hcondition
    have hb := hblock (by omega) (hdepth block (by simp)) hbody
    have hp := positionOr?_of_positionField (fun x hx => hdepth x (by simp [hx])) hposition
    simp only [stmt?, fields?_eq_some_iff.2 hnode, he, hb, hp, Option.bind_eq_bind,
      Option.bind_some, Option.pure_def]
  | @whileDo node condition block position e body p hnode hcondition hbody hposition =>
    obtain ⟨rest, rfl, hdepth⟩ := hnode.room_of_tagged hroom
    have he := expr?_of_isExpr (hdepth condition (by simp)) hcondition
    have hb := hblock (by omega) (hdepth block (by simp)) hbody
    have hp := positionOr?_of_positionField (fun x hx => hdepth x (by simp [hx])) hposition
    simp only [stmt?, fields?_eq_some_iff.2 hnode, he, hb, hp, Option.bind_eq_bind,
      Option.bind_some, Option.pure_def]
  | @switch node condition elements position e arms p hnode hcondition harms hposition =>
    obtain ⟨rest, rfl, hdepth⟩ := hnode.room_of_tagged hroom
    have he := expr?_of_isExpr (hdepth condition (by simp)) hcondition
    have hp := positionOr?_of_positionField (fun x hx => hdepth x (by simp [hx])) hposition
    -- the array of arms takes a unit of room for itself
    have hle : Json.depthOfElements elements + 1 ≤ rest := hdepth (.array elements) (by simp)
    obtain ⟨inside, rfl⟩ : ∃ inside, rest = inside + 1 := ⟨rest - 1, by omega⟩
    have has : elements.mapM (arm? inside) = some arms := by
      refine (mapM_eq_some_iff fun x hx y =>
        ⟨(represents_of_decoded inside).2.2, fun hy => ?_⟩).2 harms
      have hin := depth_le_of_mem_elements hx
      exact harm (by omega) (by omega) hy
    rw [stmt?]
    simp only [fields?_eq_some_iff.2 hnode, he, has, hp, Option.bind_eq_bind, Option.bind_some,
      Option.pure_def]
  | @expression node value position e p hnode hvalue hposition =>
    obtain ⟨rest, rfl, hdepth⟩ := hnode.room_of_tagged hroom
    have he := expr?_of_isExpr (hdepth value (by simp)) hvalue
    have hp := positionOr?_of_positionField (fun x hx => hdepth x (by simp [hx])) hposition
    simp only [stmt?, fields?_eq_some_iff.2 hnode, he, hp, Option.bind_eq_bind,
      Option.bind_some, Option.pure_def]
  | @declare node value position name e p hnode hvalue hposition =>
    obtain ⟨rest, rfl, hdepth⟩ := hnode.room_of_tagged hroom
    have he := expr?_of_isExpr (hdepth value (by simp)) hvalue
    have hp := positionOr?_of_positionField (fun x hx => hdepth x (by simp [hx])) hposition
    simp only [stmt?, fields?_eq_some_iff.2 hnode, he, hp, text?, Option.bind_eq_bind,
      Option.bind_some, Option.pure_def]
  | @assign node value position name e p hnode hvalue hposition =>
    obtain ⟨rest, rfl, hdepth⟩ := hnode.room_of_tagged hroom
    have he := expr?_of_isExpr (hdepth value (by simp)) hvalue
    have hp := positionOr?_of_positionField (fun x hx => hdepth x (by simp [hx])) hposition
    simp only [stmt?, fields?_eq_some_iff.2 hnode, he, hp, text?, Option.bind_eq_bind,
      Option.bind_some, Option.pure_def]

/-- A list of statements in a node takes a unit of room for the node and one for the array. -/
theorem Node.room_of_elements {names : List String} {v : Json} {values : List (Option Json)}
    {elements : List Json} {room : Nat} (h : Node names v values)
    (helements : some (.array elements) ∈ values) (hroom : v.depth ≤ room) :
    ∃ rest, room = rest + 2 ∧ ∀ x ∈ elements, x.depth ≤ rest := by
  have hlt := h.depth_lt helements
  rw [Json.depth] at hlt
  refine ⟨room - 2, by omega, fun x hx => ?_⟩
  have hin := depth_le_of_mem_elements hx
  omega

theorem block?_of_parts {room : Nat} {v : Json} {body : List Stmt} (hroom : v.depth ≤ room)
    (hstmt : ∀ {room' v s}, room' < room → v.depth ≤ room' → IsStmt v s → stmt? room' v = some s)
    (h : IsBlock v body) : block? room v = some body := by
  obtain ⟨hnode, hbody⟩ := h
  next elements =>
  obtain ⟨rest, rfl, hdepth⟩ :=
    hnode.room_of_elements (show some (Json.array elements) ∈ _ by simp) hroom
  simp only [block?, fields?_eq_some_iff.2 hnode]
  refine (mapM_eq_some_iff fun x hx y =>
    ⟨(represents_of_decoded rest).1, fun hy => ?_⟩).2 hbody
  exact hstmt (by omega) (hdepth x hx) hy

theorem arm?_of_parts {room : Nat} {v : Json} {a : Arm} (hroom : v.depth ≤ room)
    (hblock : ∀ {room' v body}, room' < room → v.depth ≤ room' → IsBlock v body →
      block? room' v = some body)
    (h : IsArm v a) : arm? room v = some a := by
  have hdepth : ∀ {values x}, Node ["case_value", "block"] v values → some x ∈ values →
      x.depth < room := fun hnode hx => (hnode.depth_lt hx).trans_le hroom
  cases h with
  | @case _ value block e body hnode hvalue hbody =>
    have hlt := hdepth hnode (show some block ∈ _ by simp)
    have hlt' := hdepth hnode (show some value ∈ _ by simp)
    obtain ⟨rest, rfl⟩ : ∃ rest, room = rest + 1 := ⟨room - 1, by omega⟩
    have hb := hblock (Nat.lt_succ_self rest) (Nat.le_of_lt_succ hlt) hbody
    have he := expr?_of_isExpr (Nat.le_of_lt_succ hlt') hvalue
    -- null is no expression, so the arm is not read as a default arm
    have hnull : value ≠ .null := by
      rintro rfl
      cases hvalue
    simp only [arm?, fields?_eq_some_iff.2 hnode, he, hb, Option.bind_eq_bind,
      Option.bind_some, Option.pure_def]
  | @otherwise _ block value body hnode hvalue hbody =>
    have hlt := hdepth hnode (show some block ∈ _ by simp)
    obtain ⟨rest, rfl⟩ : ∃ rest, room = rest + 1 := ⟨room - 1, by omega⟩
    have hb := hblock (Nat.lt_succ_self rest) (Nat.le_of_lt_succ hlt) hbody
    rcases hvalue with rfl | rfl
    · simp only [arm?, fields?_eq_some_iff.2 hnode, hb, Option.bind_eq_bind, Option.bind_some,
        Option.pure_def]
    · simp only [arm?, fields?_eq_some_iff.2 hnode, hb, Option.bind_eq_bind, Option.bind_some,
        Option.pure_def]

/-- What represents a statement, a block or an arm decodes, if there is room for its nesting. -/
theorem decoded_of_represents (room : Nat) :
    (∀ {v s}, v.depth ≤ room → IsStmt v s → stmt? room v = some s) ∧
      (∀ {v body}, v.depth ≤ room → IsBlock v body → block? room v = some body) ∧
      ∀ {v a}, v.depth ≤ room → IsArm v a → arm? room v = some a := by
  induction room using Nat.strong_induction_on with
  | _ room ih =>
    refine ⟨fun {v s} hroom h => ?_, fun {v body} hroom h => ?_, fun {v a} hroom h => ?_⟩
    · apply stmt?_of_parts hroom _ _ h
      · intro room' v body hlt
        exact (ih room' hlt).2.1
      · intro room' v a hlt
        exact (ih room' hlt).2.2
    · apply block?_of_parts hroom _ h
      intro room' v s hlt
      exact (ih room' hlt).1
    · apply arm?_of_parts hroom _ h
      intro room' v body hlt
      exact (ih room' hlt).2.1

/-! ## Programs -/

theorem source?_eq_some_iff {v : Option Json} {path : Option String} :
    source? v = some path ↔ SourceField v path := by
  constructor
  · intro h
    unfold source? at h
    split at h
    · cases h
      exact .absent
    · cases h
      exact .null
    · next v _ =>
      obtain ⟨path, hpath, rfl⟩ := Option.map_eq_some_iff.1 h
      rw [text?_eq_some_iff.1 hpath]
      exact .present
  · rintro (- | - | -)
    · rfl
    · rfl
    · rfl

theorem represents_of_program? {room : Nat} {v : Json} {p : Program}
    (h : program? room v = some p) : Represents v p := by
  unfold program? at h
  split at h
  · next room =>
    split at h
    · next source elements hfields =>
      simp only [Option.bind_eq_bind, Option.bind_eq_some_iff, Option.pure_def,
        Option.some.injEq] at h
      obtain ⟨path, hpath, statements, hstatements, rfl⟩ := h
      refine .node (fields?_eq_some_iff.1 hfields) (source?_eq_some_iff.1 hpath) ?_
      apply List.Forall₂.imp (fun _ _ => (represents_of_decoded room).1)
      exact (mapM_eq_some_iff fun _ _ _ => Iff.rfl).1 hstatements
    · cases h
  · cases h

theorem program?_of_represents {room : Nat} {v : Json} {p : Program} (hroom : v.depth ≤ room)
    (h : Represents v p) : program? room v = some p := by
  obtain ⟨hnode, hsource, hstatements⟩ := h
  next source elements path statements =>
  obtain ⟨rest, rfl, hdepth⟩ :=
    hnode.room_of_elements (show some (Json.array elements) ∈ _ by simp) hroom
  have hdecoded : elements.mapM (stmt? rest) = some statements := by
    refine (mapM_eq_some_iff fun x hx y =>
      ⟨(represents_of_decoded rest).1, fun hy => ?_⟩).2 hstatements
    exact (decoded_of_represents rest).1 (hdepth x hx) hy
  simp only [program?, fields?_eq_some_iff.2 hnode, source?_eq_some_iff.2 hsource, hdecoded,
    Option.bind_eq_bind, Option.bind_some, Option.pure_def]

end Format

/-- **Decoding accepts exactly the format of programs.** A value decodes to a program exactly if it
represents that program, and decoding fails exactly if it represents none. -/
theorem ofJson?_iff_represents (v : Json) :
    (∀ p, ofJson? v = some p ↔ Format.Represents v p) ∧
      (ofJson? v = none ↔ ∀ p, ¬ Format.Represents v p) := by
  have hsome : ∀ p, ofJson? v = some p ↔ Format.Represents v p := by
    intro p
    constructor
    · exact Format.represents_of_program?
    · exact Format.program?_of_represents le_rfl
  refine ⟨hsome, ?_⟩
  rw [Option.eq_none_iff_forall_ne_some]
  constructor
  · intro hnone p hp
    exact hnone p ((hsome p).2 hp)
  · intro hnone p hp
    exact hnone p ((hsome p).1 hp)

-- unknown fields may be repeated and hold anything, known fields may not be repeated
example : ofJson? (.object [("x", .garbled), ("statements", .array []), ("x", .null)]) =
    some ⟨none, []⟩ := rfl

example : ofJson? (.object [("statements", .array []), ("statements", .array [])]) = none := rfl

end StackScript.Program
