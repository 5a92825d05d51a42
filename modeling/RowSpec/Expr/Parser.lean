import RowSpec.Expr.Basic
import RowSpec.Token.Basic

/-! Reading an expression from tokens, one token at a time. A stack holds what is open around the
operand under way. When the next token is seen, the operators are closed that bind more tightly
than it does; then the token is taken or refused. Each node is numbered as it is built, and numbers
are spent also by a reading that fails. -/
namespace RowSpec

inductive ParseError where
  | notEnoughInput
  | tooMuchInput (found : Token)
  | unexpected (found : Token)
  | expectedCloseParen (found : Token)
  | expectedCommaOrCloseParen (found : Token)
  deriving DecidableEq, Repr

namespace ParseError

def token? : ParseError → Option Token
  | .notEnoughInput => none
  | .tooMuchInput found | .unexpected found => some found
  | .expectedCloseParen found | .expectedCommaOrCloseParen found => some found

def span? (e : ParseError) : Option Span := e.token?.map Token.span

def reason : ParseError → String
  | .notEnoughInput => "not enough input"
  | .tooMuchInput found => "too much input at " ++ found.kind.render
  | .unexpected found => "unexpected " ++ found.kind.render
  | .expectedCloseParen found => "expected close paren, found " ++ found.kind.render
  | .expectedCommaOrCloseParen found => "expected comma or close paren, found " ++ found.kind.render

def message (e : ParseError) : String :=
  "parse error: " ++ e.reason ++
    match e.span? with
    | some span => " at " ++ span.render
    | none => ""

end ParseError

namespace Parser

/-- What is open: an operator without its right operand, a `not` without its operand, a
parenthesis, or a call with the arguments read so far. -/
inductive Frame where
  | operator (left : Expr NodeId) (op : Operator)
  | negation
  | group
  | call (callee : Reference) (arguments : List (Expr NodeId))

/-- What was read last: nothing of an operand yet, a reference that a parenthesis would turn into
the callee of a call, or a whole operand. -/
inductive Focus where
  | wanted
  | name (path : Reference)
  | operand (e : Expr NodeId)

structure State where
  stack : List Frame
  focus : Focus
  counter : Counter

def initial (counter : Counter) : State := ⟨[], .wanted, counter⟩

def complete (e : Expr NodeId) (c : Counter) : List Frame → State
  | .negation :: stack => complete (.negation c.fresh e) c.next stack
  | stack => ⟨stack, .operand e, c⟩

/-- Closes the operators on the stack that bind at least as tightly as `least`. -/
def closeOperators (least : Nat) (e : Expr NodeId) (c : Counter) : List Frame → State
  | .operator left op :: stack =>
    if least ≤ op.precedence then
      closeOperators least (.combine c.fresh op left e) c.next stack
    else ⟨.operator left op :: stack, .operand e, c⟩
  | stack => ⟨stack, .operand e, c⟩

/-- What a token closes in front of it: all open operators, or for an operator those that bind at
least as tightly, since operators of one precedence associate to the left. -/
def bound : TokenKind → Nat
  | .operator op => op.precedence
  | _ => 0

namespace State

def settleName (s : State) (next : TokenKind) : State :=
  match s.focus with
  | .name path =>
    if next = .openParen then s
    else complete (.reference s.counter.fresh path) s.counter.next s.stack
  | _ => s

def settleOperators (s : State) (next : TokenKind) : State :=
  match s.focus with
  | .operand e => closeOperators (bound next) e s.counter s.stack
  | _ => s

def settle (s : State) (next : TokenKind) : State := (s.settleName next).settleOperators next

/-- Four words are no names, in any case: three literals and the negation. -/
def readName (s : State) (path : Reference) : State :=
  match path.single?.map Text.lower with
  | some "null" => complete (.null s.counter.fresh) s.counter.next s.stack
  | some "true" => complete (.boolean s.counter.fresh true) s.counter.next s.stack
  | some "false" => complete (.boolean s.counter.fresh false) s.counter.next s.stack
  | some "not" => ⟨.negation :: s.stack, .wanted, s.counter⟩
  | _ => ⟨s.stack, .name path, s.counter⟩

def shiftOperand (s : State) (token : Token) : Except ParseError State :=
  match token.kind with
  | .number value => .ok (complete (.number s.counter.fresh value) s.counter.next s.stack)
  | .string value => .ok (complete (.string s.counter.fresh value) s.counter.next s.stack)
  | .reference text => .ok (s.readName (.ofText text))
  | .openParen => .ok ⟨.group :: s.stack, .wanted, s.counter⟩
  | _ => .error (.unexpected token)

def shiftBehind (s : State) (e : Expr NodeId) (token : Token) : Except ParseError State :=
  match token.kind, s.stack with
  | .operator op, stack => .ok ⟨.operator e op :: stack, .wanted, s.counter⟩
  | .closeParen, .group :: stack => .ok (complete e s.counter stack)
  | .closeParen, .call callee arguments :: stack =>
    .ok (complete (.call s.counter.fresh callee (arguments ++ [e])) s.counter.next stack)
  | .comma, .call callee arguments :: stack =>
    .ok ⟨.call callee (arguments ++ [e]) :: stack, .wanted, s.counter⟩
  | _, .group :: _ => .error (.expectedCloseParen token)
  | _, .call _ _ :: _ => .error (.expectedCommaOrCloseParen token)
  | _, _ => .error (.tooMuchInput token)

def shift (s : State) (token : Token) : Except ParseError State :=
  match s.focus with
  | .wanted => s.shiftOperand token
  | .name path => .ok ⟨.call path [] :: s.stack, .wanted, s.counter⟩
  | .operand e => s.shiftBehind e token

def finish (s : State) : Except ParseError (Expr NodeId) :=
  match s.focus, s.stack with
  | .operand e, [] => .ok e
  | _, _ => .error .notEnoughInput

end State

structure Reading where
  result : Except ParseError (Expr NodeId)
  counter : Counter
  rest : List Token

def State.run (s : State) : List Token → Reading
  | [] => ⟨(s.settle .endOfInput).finish, (s.settle .endOfInput).counter, []⟩
  | token :: tokens =>
    let settled := s.settle token.kind
    if token.kind = .endOfInput then ⟨settled.finish, settled.counter, token :: tokens⟩
    else match settled.shift token with
      | .ok s => run s tokens
      | .error e => ⟨.error e, settled.counter, token :: tokens⟩

end Parser

def parse (counter : Counter) (tokens : List Token) : Parser.Reading :=
  (Parser.initial counter).run tokens

end RowSpec
