import Stubwright.Source.Token
import Stubwright.Source.Type

/-!
# Expressions and statements

## Main definitions

* `Literal`, `Expr` — expressions
* `Expr.precedence` — how tightly an expression binds
* `Expr.concat`, `Expr.classOf`, … — builders
* `Stmt` — the statements of a method body
-/

namespace Stubwright.Source

/-- A literal. Integers have 64 bits; those outside the 32-bit range are written as `long`. -/
inductive Literal where
  | text (value : String)
  | integer (value : Int64)
  | boolean (value : Bool)
  | null
deriving DecidableEq

/-- A unary operator. -/
inductive UnaryOp where
  | not
  | neg
deriving DecidableEq, Repr

/-- A binary operator. -/
inductive BinaryOp where
  | add
  | sub
  | equal
  | notEqual
  | and
  | or
deriving DecidableEq, Repr

/-- An expression. A call may stand alone or on a target. -/
inductive Expr where
  | literal (value : Literal)
  | name (name : Name)
  | self
  | field (target : Expr) (name : Name)
  | call (name : Name) (args : List Expr)
  | callOn (target : Expr) (name : Name) (args : List Expr)
  | create (type : ClassType) (args : List Expr)
  | classLiteral (type : Ty)
  | unary (op : UnaryOp) (operand : Expr)
  | binary (op : BinaryOp) (left right : Expr)
  | assign (target value : Expr)

/-! ## Equality -/

mutual

/-- Whether two expressions are the same. -/
def Expr.same : Expr → Expr → Bool
  | .literal a, .literal b => a = b
  | .name a, .name b => a = b
  | .self, .self => true
  | .field s m, .field t n => s.same t && m = n
  | .call m as, .call n bs => m = n && Expr.sameList as bs
  | .callOn s m as, .callOn t n bs => s.same t && m = n && Expr.sameList as bs
  | .create s as, .create t bs => s = t && Expr.sameList as bs
  | .classLiteral s, .classLiteral t => s = t
  | .unary o a, .unary p b => o = p && a.same b
  | .binary o a c, .binary p b d => o = p && a.same b && c.same d
  | .assign a c, .assign b d => a.same b && c.same d
  | _, _ => false

/-- Whether two lists of expressions are the same. -/
def Expr.sameList : List Expr → List Expr → Bool
  | [], [] => true
  | a :: as, b :: bs => a.same b && Expr.sameList as bs
  | _, _ => false

end

mutual

theorem Expr.same_self : (a : Expr) → a.same a = true
  | .literal _ | .name _ | .self | .classLiteral _ => by simp [Expr.same]
  | .field s _ => by simp [Expr.same, Expr.same_self s]
  | .call _ as => by simp [Expr.same, Expr.sameList_self as]
  | .callOn s _ as => by simp [Expr.same, Expr.same_self s, Expr.sameList_self as]
  | .create _ as => by simp [Expr.same, Expr.sameList_self as]
  | .unary _ a => by simp [Expr.same, Expr.same_self a]
  | .binary _ a b => by simp [Expr.same, Expr.same_self a, Expr.same_self b]
  | .assign a b => by simp [Expr.same, Expr.same_self a, Expr.same_self b]

theorem Expr.sameList_self : (as : List Expr) → Expr.sameList as as = true
  | [] => rfl
  | a :: as => by simp [Expr.sameList, Expr.same_self a, Expr.sameList_self as]

end

mutual

theorem Expr.eq_of_same : (a b : Expr) → a.same b = true → a = b
  | .literal _, b, h => by cases b <;> simp_all [Expr.same]
  | .name _, b, h => by cases b <;> simp_all [Expr.same]
  | .self, b, h => by cases b <;> simp_all [Expr.same]
  | .classLiteral _, b, h => by cases b <;> simp_all [Expr.same]
  | .field s _, b, h => by
    cases b <;> simp_all [Expr.same]
    exact Expr.eq_of_same s _ h.1
  | .call _ as, b, h => by
    cases b <;> simp_all [Expr.same]
    exact Expr.eq_of_sameList as _ h.2
  | .callOn s _ as, b, h => by
    cases b <;> simp_all [Expr.same]
    exact ⟨Expr.eq_of_same s _ h.1.1, Expr.eq_of_sameList as _ h.2⟩
  | .create _ as, b, h => by
    cases b <;> simp_all [Expr.same]
    exact Expr.eq_of_sameList as _ h.2
  | .unary _ a, b, h => by
    cases b <;> simp_all [Expr.same]
    exact Expr.eq_of_same a _ h.2
  | .binary _ a c, b, h => by
    cases b <;> simp_all [Expr.same]
    exact ⟨Expr.eq_of_same a _ h.1.2, Expr.eq_of_same c _ h.2⟩
  | .assign a c, b, h => by
    cases b <;> simp_all [Expr.same]
    exact ⟨Expr.eq_of_same a _ h.1, Expr.eq_of_same c _ h.2⟩

theorem Expr.eq_of_sameList : (as bs : List Expr) → Expr.sameList as bs = true → as = bs
  | [], [], _ => rfl
  | a :: as, b :: bs, h => by
    simp only [Expr.sameList, Bool.and_eq_true] at h
    rw [Expr.eq_of_same a b h.1, Expr.eq_of_sameList as bs h.2]
  | [], _ :: _, h => by simp [Expr.sameList] at h
  | _ :: _, [], h => by simp [Expr.sameList] at h

end

instance : DecidableEq Expr := fun a b =>
  decidable_of_iff (a.same b = true) ⟨Expr.eq_of_same a b, fun h => h ▸ Expr.same_self a⟩

instance : Inhabited Expr := ⟨.self⟩

/-! ## Builders and views -/

namespace BinaryOp

/-- How tightly an operator binds: `||`, `&&`, the two comparisons, the two sums. -/
def precedence : BinaryOp → Nat
  | or => 2
  | and => 3
  | equal | notEqual => 4
  | add | sub => 5

/-- The symbol of an operator. -/
def symbol : BinaryOp → Symbol
  | add => .plus
  | sub => .minus
  | equal => .equal
  | notEqual => .notEqual
  | and => .andAnd
  | or => .orOr

end BinaryOp

namespace Expr

/-- How tightly an expression binds. A negative literal begins with a minus sign and so binds like
a unary operator. -/
def precedence : Expr → Nat
  | assign .. => 1
  | binary op _ _ => op.precedence
  | unary .. => 6
  | literal (.integer n) => if n.toInt < 0 then 6 else 7
  | _ => 7

/-- A text literal. -/
def text (value : String) : Expr := literal (.text value)

/-- An integer literal. -/
def integer (value : Int64) : Expr := literal (.integer value)

/-- The literal `null`. -/
def null : Expr := literal .null

/-- A field of the object itself. -/
def selfField (name : Name) : Expr := field self name

/-- The class literal of a type, without its type arguments. -/
def classOf (type : Ty) : Expr := classLiteral type.erasure

/-- The parts added up from the left; without parts, the empty text. -/
def concat : List Expr → Expr
  | [] => text ""
  | first :: rest => rest.foldl (binary .add) first

/-- Reads `a.b.C` as a qualified name. -/
def qualifiedName? : Expr → Option QualifiedName
  | name n => some (.simple n)
  | field target n => target.qualifiedName?.map (·.child n)
  | _ => none

/-- Whether an expression may stand on the left of an assignment: a name or a field. -/
def isAssignable : Expr → Bool
  | name _ | field .. => true
  | _ => false

end Expr

/-- A statement of a method body. -/
inductive Stmt where
  | eval (value : Expr)
  | returns (value : Option Expr)
  | throws (value : Expr)
  | declare (type : Ty) (name : Name) (init : Option Expr)
deriving DecidableEq

end Stubwright.Source
