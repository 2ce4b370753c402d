import BracketLang.Frontend
import BracketLang.Lexeme.Scanner
import BracketLang.Tree.Outline
import BracketLang.Proofs.Grammar.EndOfInput
import BracketLang.Proofs.Grammar.ErrorOrder
import BracketLang.Proofs.Grammar.Openings
import BracketLang.Proofs.Grammar.OperatorLoop
import BracketLang.Proofs.Grammar.Spans
import BracketLang.Proofs.Grammar.Truncation
import BracketLang.Proofs.Grammar.ValidPrefix
import BracketLang.Proofs.Lexeme.LineBreaks
import BracketLang.Proofs.Lexeme.Rendering
import BracketLang.Proofs.RoundTrip
import BracketLang.Proofs.Typing.Bindings
import BracketLang.Proofs.Typing.Hints
import BracketLang.Proofs.Typing.Reports
import BracketLang.Proofs.Typing.Suggestions
import BracketLang.Proofs.Lexeme.Overlong
import BracketLang.Proofs.Grammar.Genuine
import BracketLang.Proofs.Typing.Poison
import BracketLang.Proofs.Typing.Recursion
