import Mathlib.Tactic
import StackScript.Program.Encode
import StackScript.Proofs.JsonText
import StackScript.Proofs.ProgramFormat

set_option autoImplicit false

/-!
# Programs survive their text

Writing a program as compact text and reading it back gives the program, as long as the text is
nested to a depth of at most 127 (`Program.ofText?_toText`). Deeper text is refused: a node needs as
much room as its value is deep, no less and no more (`DecodesExactly`), since the written form has
no unknown fields, which alone would take no room.
-/

namespace StackScript.Program.Encode

open Decode

/-! ## Written values are plain -/

theorem plain_position (p : Position) : (position p).Plain := by
  apply Json.Plain.object
  simp [Json.ofNat, Json.Plain.integer]

theorem plain_tagged {tag : String} {fields : List (String × Json)}
    (h : ∀ entry ∈ fields, entry.2.Plain) : (tagged tag fields).Plain := by
  apply Json.Plain.object
  simpa using Json.Plain.object h

mutual

theorem plain_expr : ∀ e : Expr, (expr e).Plain
  | .binary left operator right p => by
    apply plain_tagged
    simp [plain_expr left, plain_expr right, Json.Plain.string, plain_position]
  | .call callee arguments p => by
    apply plain_tagged
    simp [plain_expr callee, Json.Plain.array (plain_exprs arguments), plain_position]
  | .parens inner p => by
    apply plain_tagged
    simp [plain_expr inner, plain_position]
  | .number literal p => by
    apply plain_tagged
    simp [Json.Plain.string, plain_position]
  | .identifier name p => by
    apply plain_tagged
    simp [Json.Plain.string, plain_position]
  | .member object name p => by
    apply plain_tagged
    simp [plain_expr object, Json.Plain.string, plain_position]

theorem plain_exprs : ∀ es : List Expr, ∀ v ∈ exprs es, v.Plain
  | [] => by simp [exprs]
  | e :: es => by
    rw [exprs, List.forall_mem_cons]
    exact ⟨plain_expr e, plain_exprs es⟩

end

theorem plain_block {statements : List Json} (h : ∀ v ∈ statements, v.Plain) :
    (block statements).Plain := by
  apply Json.Plain.object
  simpa using Json.Plain.array h

mutual

theorem plain_fields : ∀ (s : Stmt), ∀ entry ∈ fields s, entry.2.Plain
  | .ifThen condition body p | .whileDo condition body p => by
    simp [fields, plain_expr, plain_block (plain_stmts body), plain_position]
  | .switch condition cases p => by
    simp [fields, plain_expr, Json.Plain.array (plain_arms cases), plain_position]
  | .expression value p => by simp [fields, plain_expr, plain_position]
  | .declare name value p | .assign name value p => by
    simp [fields, plain_expr, Json.Plain.string, plain_position]

theorem plain_stmts : ∀ body : List Stmt, ∀ v ∈ stmts body, v.Plain
  | [] => by simp [stmts]
  | s :: rest => by
    rw [stmts, List.forall_mem_cons]
    exact ⟨plain_tagged (plain_fields s), plain_stmts rest⟩

theorem plain_arm : ∀ a : Arm, (arm a).Plain
  | .case value body => by
    apply Json.Plain.object
    simp [plain_expr, plain_block (plain_stmts body)]
  | .otherwise body => by
    apply Json.Plain.object
    simp [Json.Plain.null, plain_block (plain_stmts body)]

theorem plain_arms : ∀ cases : List Arm, ∀ v ∈ arms cases, v.Plain
  | [] => by simp [arms]
  | a :: rest => by
    rw [arms, List.forall_mem_cons]
    exact ⟨plain_arm a, plain_arms rest⟩

end

theorem plain_source (path : Option String) : (source path).Plain := by
  cases path with
  | none => exact .null
  | some path => exact .string path

/-! ## Room for written values -/

/-- A value is decoded as `a` where there is room for its whole depth, and else not at all. -/
def DecodesExactly {α : Type} (decode : Nat → Json → Option α) (v : Json) (a : α) : Prop :=
  ∀ room result, decode room v = some result ↔ v.depth ≤ room ∧ a = result

/-- Elements are decoded in order where there is room for the deepest of them, and else not at
all. -/
def AllDecodeExactly {α : Type} (decode : Nat → Json → Option α) (vs : List Json) (as : List α) :
    Prop :=
  ∀ room result, vs.mapM (decode room) = some result ↔ Json.depthOfElements vs ≤ room ∧ as = result

section

variable {α : Type} {decode : Nat → Json → Option α}

theorem AllDecodeExactly.nil : AllDecodeExactly decode [] [] := by
  intro room result
  simp [Json.depthOfElements]

theorem AllDecodeExactly.cons {v : Json} {vs : List Json} {a : α} {as : List α}
    (hv : DecodesExactly decode v a) (hvs : AllDecodeExactly decode vs as) :
    AllDecodeExactly decode (v :: vs) (a :: as) := by
  intro room result
  simp [Option.bind_eq_some_iff, hv room, hvs room, Json.depthOfElements, and_assoc]

theorem depth_tagged (tag : String) (fields : List (String × Json)) :
    (tagged tag fields).depth = Json.depthOfFields fields + 2 := by
  rw [tagged, Format.depth_tagged, Json.depth]

/-- A node under its tag takes two units of room itself. -/
theorem decodesExactly_tagged {tag : String} {fields : List (String × Json)} {a : α}
    (hshort : ∀ room < 2, decode room (tagged tag fields) = none)
    (h : ∀ room result, decode (room + 2) (tagged tag fields) = some result ↔
      Json.depthOfFields fields ≤ room ∧ a = result) :
    DecodesExactly decode (tagged tag fields) a := by
  intro room result
  rw [depth_tagged]
  by_cases hroom : room < 2
  · rw [hshort room hroom]
    constructor
    · intro hnone
      cases hnone
    · rintro ⟨hle, -⟩
      omega
  · obtain ⟨rest, rfl⟩ := Nat.exists_eq_add_of_le' (Nat.le_of_not_lt hroom)
    rw [h, Nat.add_le_add_iff_right]

end

theorem decodesExactly_position (p : Position) : DecodesExactly position? (position p) p := by
  have hdepth : (position p).depth = 1 := rfl
  have hfields : fields? ["line", "column"] (position p) =
      some [some (.ofNat p.line.toNat), some (.ofNat p.column.toNat)] := rfl
  intro room result
  cases room with
  | zero => simp [position?, hdepth]
  | succ room => simp [position?, hdepth, hfields, Format.word?_toNat]

theorem expr?_of_lt {room : Nat} (hroom : room < 2) (v : Json) : expr? room v = none := by
  unfold expr?
  split
  · omega
  · rfl

mutual

theorem decodesExactly_expr : ∀ e : Expr, DecodesExactly expr? (expr e) e
  | .binary left operator right p => by
    have hleft := decodesExactly_expr left
    have hright := decodesExactly_expr right
    apply decodesExactly_tagged fun room hroom => expr?_of_lt hroom _
    intro room result
    simp [tagged, expr?, fields?, field?, positionOr?, text?, Option.bind_eq_some_iff,
      Json.depthOfFields, Json.depth, hleft room, hright room, decodesExactly_position p room,
      and_assoc]
  | .call callee arguments p => by
    have hcallee := decodesExactly_expr callee
    have harguments := allDecodeExactly_exprs arguments
    apply decodesExactly_tagged fun room hroom => expr?_of_lt hroom _
    intro room result
    -- the array of the arguments takes a unit of its own
    cases room with
    | zero => simp [tagged, expr?, fields?, field?, Json.depthOfFields, Json.depth]
    | succ room =>
      simp [tagged, expr?, fields?, field?, positionOr?, Option.bind_eq_some_iff,
        Json.depthOfFields, Json.depth, hcallee (room + 1), harguments room,
        decodesExactly_position p (room + 1), and_assoc, and_left_comm]
  | .parens inner p => by
    have hinner := decodesExactly_expr inner
    apply decodesExactly_tagged fun room hroom => expr?_of_lt hroom _
    intro room result
    simp [tagged, expr?, fields?, field?, positionOr?, Option.bind_eq_some_iff,
      Json.depthOfFields, hinner room, decodesExactly_position p room, and_assoc]
  | .number literal p => by
    apply decodesExactly_tagged fun room hroom => expr?_of_lt hroom _
    intro room result
    simp [tagged, expr?, fields?, field?, positionOr?, text?, Option.bind_eq_some_iff,
      Json.depthOfFields, Json.depth, decodesExactly_position p room, and_assoc]
  | .identifier name p => by
    apply decodesExactly_tagged fun room hroom => expr?_of_lt hroom _
    intro room result
    simp [tagged, expr?, fields?, field?, positionOr?, text?, Option.bind_eq_some_iff,
      Json.depthOfFields, Json.depth, decodesExactly_position p room, and_assoc]
  | .member object name p => by
    have hobject := decodesExactly_expr object
    apply decodesExactly_tagged fun room hroom => expr?_of_lt hroom _
    intro room result
    simp [tagged, expr?, fields?, field?, positionOr?, text?, Option.bind_eq_some_iff,
      Json.depthOfFields, Json.depth, hobject room, decodesExactly_position p room, and_assoc]

theorem allDecodeExactly_exprs : ∀ es : List Expr, AllDecodeExactly expr? (exprs es) es
  | [] => .nil
  | e :: es => .cons (decodesExactly_expr e) (allDecodeExactly_exprs es)

end

theorem stmt?_of_lt {room : Nat} (hroom : room < 2) (v : Json) : stmt? room v = none := by
  unfold stmt?
  split
  · omega
  · rfl

theorem depth_block (statements : List Json) :
    (block statements).depth = Json.depthOfElements statements + 2 := by
  simp [block, Json.depth, Json.depthOfFields]

theorem decodesExactly_block {statements : List Json} {body : List Stmt}
    (h : AllDecodeExactly stmt? statements body) :
    DecodesExactly block? (block statements) body := by
  intro room result
  rw [depth_block]
  match room with
  | 0 | 1 => simp [block?]
  | room + 2 => simp [block?, block, fields?, field?, h room]

mutual

theorem decodesExactly_stmt : ∀ s : Stmt, DecodesExactly stmt? (tagged (tag s) (fields s)) s
  | .ifThen condition body p | .whileDo condition body p => by
    have hbody := decodesExactly_block (allDecodeExactly_stmts body)
    apply decodesExactly_tagged fun room hroom => stmt?_of_lt hroom _
    intro room result
    simp [tagged, tag, fields, stmt?, fields?, field?, positionOr?, Option.bind_eq_some_iff,
      Json.depthOfFields, decodesExactly_expr condition room, hbody room,
      decodesExactly_position p room, and_assoc]
  | .switch condition cases p => by
    have hcases := allDecodeExactly_arms cases
    apply decodesExactly_tagged fun room hroom => stmt?_of_lt hroom _
    intro room result
    -- the array of the arms takes a unit of its own
    cases room with
    | zero => simp [tagged, tag, fields, stmt?, fields?, field?, Json.depthOfFields, Json.depth]
    | succ room =>
      simp [tagged, tag, fields, stmt?, fields?, field?, positionOr?, Option.bind_eq_some_iff,
        Json.depthOfFields, Json.depth, decodesExactly_expr condition (room + 1), hcases room,
        decodesExactly_position p (room + 1), and_assoc, and_left_comm]
  | .expression value p => by
    apply decodesExactly_tagged fun room hroom => stmt?_of_lt hroom _
    intro room result
    simp [tagged, tag, fields, stmt?, fields?, field?, positionOr?, Option.bind_eq_some_iff,
      Json.depthOfFields, decodesExactly_expr value room, decodesExactly_position p room,
      and_assoc]
  | .declare name value p | .assign name value p => by
    apply decodesExactly_tagged fun room hroom => stmt?_of_lt hroom _
    intro room result
    simp [tagged, tag, fields, stmt?, fields?, field?, positionOr?, text?, Option.bind_eq_some_iff,
      Json.depthOfFields, Json.depth, decodesExactly_expr value room,
      decodesExactly_position p room, and_assoc]

theorem allDecodeExactly_stmts : ∀ body : List Stmt, AllDecodeExactly stmt? (stmts body) body
  | [] => .nil
  | s :: rest => .cons (decodesExactly_stmt s) (allDecodeExactly_stmts rest)

theorem decodesExactly_arm : ∀ a : Arm, DecodesExactly arm? (arm a) a
  | .case value body => by
    have hbody := decodesExactly_block (allDecodeExactly_stmts body)
    -- else the arm would be read as the default arm
    have hnull : expr value ≠ .null := by
      cases value <;> exact Json.noConfusion
    intro room result
    cases room with
    | zero => simp [arm?, arm, Json.depth]
    | succ room =>
      simp [arm?, arm, fields?, field?, Option.bind_eq_some_iff, Json.depth, Json.depthOfFields,
        decodesExactly_expr value room, hbody room, and_assoc]
  | .otherwise body => by
    have hbody := decodesExactly_block (allDecodeExactly_stmts body)
    intro room result
    cases room with
    | zero => simp [arm?, arm, Json.depth]
    | succ room =>
      simp [arm?, arm, fields?, field?, Option.bind_eq_some_iff, Json.depth, Json.depthOfFields,
        hbody room, and_assoc]

theorem allDecodeExactly_arms : ∀ cases : List Arm, AllDecodeExactly arm? (arms cases) cases
  | [] => .nil
  | a :: rest => .cons (decodesExactly_arm a) (allDecodeExactly_arms rest)

end

theorem decodesExactly_toJson (p : Program) : DecodesExactly program? p.toJson p := by
  have hstatements := allDecodeExactly_stmts p.statements
  have hsource : source? (some (source p.source)) = some p.source := by
    cases p.source <;> rfl
  have hdepth : (source p.source).depth = 0 := by
    cases p.source <;> rfl
  intro room result
  match room with
  | 0 | 1 => simp [program?, toJson, Json.depth, Json.depthOfFields]
  | room + 2 =>
    simp [program?, toJson, fields?, field?, hsource, hdepth, Option.bind_eq_some_iff, Json.depth,
      Json.depthOfFields, hstatements room, and_assoc]

end StackScript.Program.Encode

namespace StackScript.Program

open Decode

theorem plain_toJson (p : Program) : p.toJson.Plain := by
  apply Json.Plain.object
  simp [Encode.plain_source, Json.Plain.array (Encode.plain_stmts p.statements)]

/-- **Programs survive their text.** The compact text of a program is read as the program if its
arrays and objects are nested to a depth of at most 127, and else refused. -/
theorem ofText?_toText (p : Program) :
    ofText? p.toText = if Json.nesting p.toText ≤ 127 then some p else none := by
  have hplain := plain_toJson p
  have hparse : Json.parse? p.toText = some p.toJson := Json.parse?_compact hplain
  have hnesting : Json.nesting p.toText = p.toJson.depth := Json.nesting_compact hplain
  have hdecode := Encode.decodesExactly_toJson p textRoom
  have hread : ofText? p.toText = program? textRoom p.toJson := by
    rw [ofText?, hparse]
  rw [hread, hnesting]
  split_ifs with hfits
  · exact (hdecode p).2 ⟨hfits, rfl⟩
  · rw [Option.eq_none_iff_forall_ne_some]
    intro result hresult
    exact hfits ((hdecode result).1 hresult).1

end StackScript.Program
