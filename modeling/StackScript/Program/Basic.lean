import StackScript.Position

set_option autoImplicit false

/-!
# Program trees

Expressions, statements and programs. Every node carries the position it was written at. A switch
has arms, which are tried in order; a default arm is taken whenever it is reached.
-/

namespace StackScript

/-- An expression. -/
inductive Expr
  | binary (left : Expr) (operator : String) (right : Expr) (position : Position)
  | call (callee : Expr) (arguments : List Expr) (position : Position)
  | parens (inner : Expr) (position : Position)
  | number (literal : String) (position : Position)
  | identifier (name : String) (position : Position)
  | member (object : Expr) (name : String) (position : Position)
deriving Inhabited

mutual

/-- A statement. -/
inductive Stmt
  | ifThen (condition : Expr) (body : List Stmt) (position : Position)
  | whileDo (condition : Expr) (body : List Stmt) (position : Position)
  | switch (condition : Expr) (arms : List Arm) (position : Position)
  | expression (value : Expr) (position : Position)
  | declare (name : String) (value : Expr) (position : Position)
  | assign (name : String) (value : Expr) (position : Position)

/-- An arm of a switch. -/
inductive Arm
  | case (value : Expr) (body : List Stmt)
  | otherwise (body : List Stmt)

end

/-- A sequence of statements, with the path of the text it was read from. -/
structure Program where
  source : Option String := none
  statements : List Stmt

namespace Expr

/-- Where an expression was written. -/
def position : Expr → Position
  | binary _ _ _ p | call _ _ p | parens _ p | number _ p | identifier _ p | member _ _ p => p

/-- The same expression written elsewhere; its parts stay where they are. -/
def place (p : Position) : Expr → Expr
  | binary left operator right _ => binary left operator right p
  | call callee arguments _ => call callee arguments p
  | parens inner _ => parens inner p
  | number literal _ => number literal p
  | identifier name _ => identifier name p
  | member object name _ => member object name p

end Expr

namespace Stmt

/-- Where a statement was written. -/
def position : Stmt → Position
  | ifThen _ _ p | whileDo _ _ p | switch _ _ p | expression _ p | declare _ _ p | assign _ _ p => p

/-- The same statement written elsewhere; its parts stay where they are. -/
def place (p : Position) : Stmt → Stmt
  | ifThen condition body _ => ifThen condition body p
  | whileDo condition body _ => whileDo condition body p
  | switch condition arms _ => switch condition arms p
  | expression value _ => expression value p
  | declare name value _ => declare name value p
  | assign name value _ => assign name value p

/-- The condition or the value of a statement. -/
def subject : Stmt → Expr
  | ifThen e _ _ | whileDo e _ _ | switch e _ _ | expression e _ | declare _ e _ | assign _ e _ => e

end Stmt

/-- Whether an arm is a default arm. -/
def Arm.isDefault : Arm → Bool
  | .case _ _ => false
  | .otherwise _ => true

end StackScript
