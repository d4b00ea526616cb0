/-
# Syntax of Autarky: expressions and the erased program

`autarky_vm/src/ast.rs` and `autarky_vm/src/ir.rs`.  The parser yields an `Expr`; erasure drops
the types of lambda parameters and the tail-position marks and leaves the `IrNode` that the
machine evaluates.

The nine operators on two integers are one constructor with the operator as an argument:

| source | here |
| --- | --- |
| `Expr::Add` … `Expr::Le`, `IrNode::Add` … `IrNode::Le` | `.bin op l r` |
| `Expr::Left(e, ())`, `Expr::Right(e, ())` | `.left e`, `.right e` |
| every other variant | the constructor of its name |

A name is the list of its characters and a float is the pattern of its 64 bits.
-/

import Mathlib.Algebra.Order.Ring.Int

namespace AiOsExchange
namespace Autarky

/-- A `String`, as its characters. -/
abbrev Word := List Char

/-- An `f64`, as its bits. -/
structure F64 where
  bits : UInt64
  deriving DecidableEq

/-- `ast::Type`. -/
inductive Ty
  | int
  | float
  | any
  | func (t₁ t₂ : Ty)
  | pair (t₁ t₂ : Ty)
  | either (t₁ t₂ : Ty)
  deriving DecidableEq

/-- The operators of `Expr::Add` … `Expr::Le`. -/
inductive BinOp
  | add | sub | mul | div | eq | gt | lt | ge | le
  deriving DecidableEq

/-- `ast::Expr`. -/
inductive Expr
  | intLiteral (n : Int64)
  | floatLiteral (f : F64)
  | var (name : Word)
  | bin (op : BinOp) (l r : Expr)
  | lambda (param : Word) (paramType : Ty) (body : Expr)
  | app (func arg : Expr) (tailPosition : Bool)
  | pair (l r : Expr)
  | unpack (a b : Word) (pair body : Expr)
  | left (e : Expr)
  | right (e : Expr)
  | matchE (expr : Expr) (lVar : Word) (lBody : Expr) (rVar : Word) (rBody : Expr)
  | letE (var : Word) (val body : Expr)
  | letRec (var : Word) (val body : Expr)
  deriving DecidableEq

/-- `ir::IrNode`. -/
inductive IrNode
  | intLiteral (n : Int64)
  | floatLiteral (f : F64)
  | var (name : Word)
  | bin (op : BinOp) (l r : IrNode)
  | lambda (param : Word) (body : IrNode)
  | app (func arg : IrNode)
  | pair (l r : IrNode)
  | unpack (a b : Word) (pair body : IrNode)
  | left (v : IrNode)
  | right (v : IrNode)
  | matchE (expr : IrNode) (lVar : Word) (lBody : IrNode) (rVar : Word) (rBody : IrNode)
  | letE (var : Word) (val body : IrNode)
  | letRec (var : Word) (val body : IrNode)
  deriving DecidableEq

/-- `ir::erase_proofs`. -/
def eraseProofs : Expr → IrNode
  | .intLiteral n => .intLiteral n
  | .floatLiteral f => .floatLiteral f
  | .var name => .var name
  | .bin op l r => .bin op (eraseProofs l) (eraseProofs r)
  | .lambda param _ body => .lambda param (eraseProofs body)
  | .app func arg _ => .app (eraseProofs func) (eraseProofs arg)
  | .pair l r => .pair (eraseProofs l) (eraseProofs r)
  | .unpack a b pair body => .unpack a b (eraseProofs pair) (eraseProofs body)
  | .left e => .left (eraseProofs e)
  | .right e => .right (eraseProofs e)
  | .matchE expr lVar lBody rVar rBody =>
      .matchE (eraseProofs expr) lVar (eraseProofs lBody) rVar (eraseProofs rBody)
  | .letE var val body => .letE var (eraseProofs val) (eraseProofs body)
  | .letRec var val body => .letRec var (eraseProofs val) (eraseProofs body)

end Autarky
end AiOsExchange
