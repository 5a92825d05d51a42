import RowSpec.Decimal.Layout
import RowSpec.Operator
import RowSpec.Text.Basic

/-! Tokens and the stretch of source that each of them covers. -/
namespace RowSpec

structure Span where
  start : Nat
  stop : Nat
  deriving DecidableEq, Repr

def Span.render (s : Span) : String := s!"{s.start}..{s.stop}"

def Span.text (s : Span) (source : String) : String :=
  String.ofList ((Text.slice source.toList s.start s.stop).getD [])

inductive TokenKind where
  | reference (text : String)
  | string (value : String)
  | number (value : Double)
  | operator (op : Operator)
  | openParen
  | closeParen
  | comma
  | endOfInput
  deriving DecidableEq, Repr

def TokenKind.render : TokenKind → String
  | .reference text => text
  | .string value => "'" ++ value ++ "'"
  | .number value => value.render
  | .operator op => op.render
  | .openParen => "("
  | .closeParen => ")"
  | .comma => ","
  | .endOfInput => "end of input"

structure Token where
  kind : TokenKind
  span : Span
  deriving DecidableEq, Repr

end RowSpec
