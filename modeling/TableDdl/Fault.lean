/-!
# What can be wrong with a text

A fault is the reason for which a text is refused. A refusal adds to the fault the token at which it
was found and, where there is one, the line of that token.
-/

namespace TableDdl

/-- The reason for which a text is refused. -/
inductive Fault where
  /-- No token starts with this character. -/
  | unexpectedCharacter
  /-- A comment has no end. -/
  | unterminatedComment
  /-- A quoted string has no closing quote. -/
  | unterminatedString
  /-- A quoted name has no closing backtick. -/
  | unterminatedName
  /-- A parenthesis is open at the end of the text. -/
  | unclosedParenthesis
  /-- Something that the grammar demands is missing. -/
  | expected (what : String)
  /-- A number is outside the range that the grammar demands. -/
  | invalid (what : String)
  /-- A list of columns in an `ADD` clause is not closed. -/
  | unclosedColumnGroup
  /-- `COLUMNS` stands in a partition clause that has no such form. -/
  | misplacedColumns
  /-- The word is no table option. -/
  | unknownTableOption (key : String)
  /-- Only foreign keys are accepted, and this constraint is none. -/
  | unsupportedConstraint
  /-- What follows the action is no target of a clause. -/
  | unsupportedExpression (action text : String)
  /-- The action cannot be applied to the target. -/
  | unsupportedOperation (action target : String)
  /-- The text goes on after the statement. -/
  | trailingInput
  /-- A reason in the words of the caller. -/
  | stated (message : String)
deriving DecidableEq, Repr

namespace Fault

/-- The wording of a fault. -/
def message : Fault → String
  | unexpectedCharacter => "Unexpected character"
  | unterminatedComment => "Unterminated comment"
  | unterminatedString => "Unterminated string literal"
  | unterminatedName => "Unterminated quoted identifier"
  | unclosedParenthesis => "Unclosed parenthesis"
  | expected what => "Expected " ++ what
  | invalid what => "Invalid " ++ what
  | unclosedColumnGroup => "Column definition expected closing bracket \")\""
  | misplacedColumns => "COLUMNS is only allowed for RANGE or LIST"
  | unknownTableOption key => "Unknown table option: " ++ key
  | unsupportedConstraint => "Unsupported constraint, only FOREIGN KEY is supported"
  | unsupportedExpression action text =>
      "Not supported ALTER TABLE expression '" ++ action ++ " " ++ text ++ "'"
  | unsupportedOperation action target => "Unsupported operation: " ++ action ++ " " ++ target
  | trailingInput => "Unexpected input after statement"
  | stated message => message

end Fault

/-- The refusal of a text. -/
structure ParseError where
  /-- The reason. -/
  fault : Fault
  /-- The text of the token at which the fault was found. -/
  token : String
  /-- The line of that token, if it is known. -/
  line : Option Nat
deriving DecidableEq, Repr

namespace ParseError

/-- The refusal in words. -/
def message (error : ParseError) : String :=
  "Parse error: " ++ error.fault.message ++ " (got '" ++ error.token ++ "')" ++
    match error.line with
    | some line => " on line " ++ toString line
    | none => ""

end ParseError

end TableDdl
