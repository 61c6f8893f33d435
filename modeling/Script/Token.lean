import Script.Constant

/-!
# Tokens

A token is a piece of source text that the grammar sees as one symbol, with the place where it ends.
-/

namespace Script

/-- The symbols of the grammar. -/
inductive Kind where
  | leftParen
  | rightParen
  | leftBrace
  | rightBrace
  | leftBracket
  | rightBracket
  | plus
  | minus
  | star
  | slash
  | semicolon
  | colon
  | dot
  | questionMark
  | comma
  | bang
  | bangEqual
  | equal
  | equalEqual
  | less
  | lessEqual
  | greater
  | greaterEqual
  | ampersand
  | andAnd
  | pipe
  | orOr
  | plusPlus
  | minusMinus
  | identifier
  | string
  | number
  | classWord
  | ifWord
  | elseWord
  | trueWord
  | falseWord
  | forWord
  | funWord
  | nullWord
  | returnWord
  | superWord
  | thisWord
  | varWord
  | constWord
  | whileWord
  | endOfInput
deriving DecidableEq, Repr

namespace Kind

/-- All kinds, in their order. -/
def all : List Kind :=
  [leftParen, rightParen, leftBrace, rightBrace, leftBracket, rightBracket, plus, minus, star,
    slash, semicolon, colon, dot, questionMark, comma, bang, bangEqual, equal, equalEqual, less,
    lessEqual, greater, greaterEqual, ampersand, andAnd, pipe, orOr, plusPlus, minusMinus,
    identifier, string, number, classWord, ifWord, elseWord, trueWord, falseWord, forWord, funWord,
    nullWord, returnWord, superWord, thisWord, varWord, constWord, whileWord, endOfInput]

/-- The name of a kind in listings. -/
def name : Kind → String
  | leftParen => "LEFT_PAREN"
  | rightParen => "RIGHT_PAREN"
  | leftBrace => "LEFT_BRACE"
  | rightBrace => "RIGHT_BRACE"
  | leftBracket => "LEFT_BRACKET"
  | rightBracket => "RIGHT_BRACKET"
  | plus => "PLUS"
  | minus => "MINUS"
  | star => "STAR"
  | slash => "SLASH"
  | semicolon => "SEMICOLON"
  | colon => "COLON"
  | dot => "DOT"
  | questionMark => "QUESTION_MARK"
  | comma => "COMMA"
  | bang => "BANG"
  | bangEqual => "BANG_EQUAL"
  | equal => "EQUAL"
  | equalEqual => "EQUAL_EQUAL"
  | less => "LESS"
  | lessEqual => "LESS_EQUAL"
  | greater => "GREATER"
  | greaterEqual => "GREATER_EQUAL"
  | ampersand => "AMPERSAND"
  | andAnd => "AND"
  | pipe => "PIPE"
  | orOr => "OR"
  | plusPlus => "PLUS_PLUS"
  | minusMinus => "MINUS_MINUS"
  | identifier => "IDENTIFIER"
  | string => "STRING"
  | number => "NUMBER"
  | classWord => "CLASS"
  | ifWord => "IF"
  | elseWord => "ELSE"
  | trueWord => "TRUE"
  | falseWord => "FALSE"
  | forWord => "FOR"
  | funWord => "FUN"
  | nullWord => "NULL"
  | returnWord => "RETURN"
  | superWord => "SUPER"
  | thisWord => "THIS"
  | varWord => "VAR"
  | constWord => "CONST"
  | whileWord => "WHILE"
  | endOfInput => "EOF"

/-- The words of the language that are no identifiers. -/
def keywords : List (String × Kind) :=
  [("class", classWord), ("if", ifWord), ("else", elseWord), ("true", trueWord),
    ("false", falseWord), ("for", forWord), ("fun", funWord), ("null", nullWord),
    ("return", returnWord), ("super", superWord), ("this", thisWord), ("var", varWord),
    ("const", constWord), ("while", whileWord)]

/-- The kind of a word: a keyword if the whole word is one, and an identifier otherwise. -/
def ofWord (word : String) : Kind :=
  (keywords.lookup word).getD identifier

end Kind

/-- A token. Its literal is the value of a number or a string and `null` for any other token. It
ends on `line` after `column` characters, so it starts at `column - length` if it is on one line. -/
structure Token where
  kind : Kind
  text : String
  literal : Constant
  line : Int
  column : Int
  length : Int
deriving DecidableEq

end Script
