import BracketLang.Token.Kind

/-! How tightly operators bind. Every binary operator is left-associative. -/

namespace BracketLang

/-- The levels of binding, loosest first. -/
inductive Precedence where
  | none | or | and | equality | comparison | term | factor | unary
deriving DecidableEq, Repr

namespace Precedence

def all : List Precedence := [none, or, and, equality, comparison, term, factor, unary]

/-- The place of a level in the order; a higher one binds tighter. -/
def rank : Precedence → Nat
  | none => 0
  | or => 1
  | and => 2
  | equality => 3
  | comparison => 4
  | term => 5
  | factor => 6
  | unary => 7

def name : Precedence → String
  | none => "NONE"
  | or => "OR"
  | and => "AND"
  | equality => "EQUALITY"
  | comparison => "COMPARISON"
  | term => "TERM"
  | factor => "FACTOR"
  | unary => "UNARY"

def ofRank? (n : Nat) : Option Precedence := all.find? (·.rank = n)

instance : LE Precedence := ⟨fun p q => p.rank ≤ q.rank⟩

instance (p q : Precedence) : Decidable (p ≤ q) := inferInstanceAs (Decidable (p.rank ≤ q.rank))

/-- The next tighter level; nothing binds tighter than a unary operator. -/
def tighter : Precedence → Precedence
  | none => or
  | or => and
  | and => equality
  | equality => comparison
  | comparison => term
  | term => factor
  | factor | unary => unary

end Precedence

namespace TokenKind

/-- How tightly a binary operator binds; `none` for every other kind. -/
def precedence : TokenKind → Precedence
  | or => .or
  | and => .and
  | equal | notEqual => .equality
  | less | greater | lessEqual | greaterEqual => .comparison
  | plus | minus => .term
  | star | slash => .factor
  | _ => .none

/-- The kinds that can start an expression. -/
def expressionStarts : List TokenKind :=
  [integer, trueWord, falseWord, identifier, leftParen, minus, not]

/-- The kinds that name a type. -/
def typeStarts : List TokenKind := [i32Word, boolWord]

/-- The reserved words that start a statement. -/
def statementStarts : List TokenKind := [letWord, ifWord, whileWord, returnWord, printWord]

/-- The kinds that no statement can run over. -/
def blockBoundaries : List TokenKind := [rightBracket, funcWord, eof]

/-- Whether reading can go on in front of this kind after an error. -/
def isResumePoint (kind : TokenKind) : Bool := kind ∈ statementStarts ∨ kind ∈ blockBoundaries

end TokenKind

/-- How many levels an expression may nest. -/
def maxExpressionDepth : Nat := 100

end BracketLang
