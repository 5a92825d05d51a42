import RowSpec.Expr.Parser
import RowSpec.Token.Lexer

/-! Expressions from source text. -/
namespace RowSpec

inductive SourceError where
  | lex (e : LexError)
  | parse (e : ParseError)
  deriving DecidableEq, Repr

def SourceError.message : SourceError → String
  | .lex e => e.message
  | .parse e => e.message

/-- The source is split into tokens in full before the first node is built, so a source with a bad
token spends no ids. -/
def parseSource (counter : Counter) (source : String) :
    Except SourceError (Expr NodeId) × Counter :=
  match tokenize source with
  | .error e => (.error (.lex e), counter)
  | .ok tokens =>
    let reading := parse counter tokens
    (reading.result.mapError .parse, reading.counter)

end RowSpec
