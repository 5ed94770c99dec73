import Offside.Span

/-!
# Tokens

The words of the script language. A `Token.Kind` is a keyword, the printing name `console.log`,
an identifier, an integer, a string literal or a `Mark` (operator or punctuation). Keywords and
marks have one fixed spelling each:

* `Keyword.spelling` and `Keyword.ofSpelling?` go back and forth;
* `Mark.leading?` finds the mark at the start of a text, the longer spelling first;
* `Token.Kind.spelling` is how a token is written in a source text;
* `Token.Kind.describe` is how a token is named in a message.
-/

namespace Offside

/-! ### Keywords -/

/-- The three words that declare a variable. -/
inductive DeclKind where
  | varDecl
  | letDecl
  | constDecl
deriving DecidableEq

/-- The word that introduces the declaration. -/
def DeclKind.spelling : DeclKind → String
  | .varDecl => "var"
  | .letDecl => "let"
  | .constDecl => "const"

/-- The reserved words of the language. -/
inductive Keyword where
  | decl (kind : DeclKind)
  | forLoop
  | whileLoop
  | ifBranch
  | elseBranch
  | function
  | returnJump
  | breakJump
  | continueJump
deriving DecidableEq

namespace Keyword

/-- Every keyword, once. -/
def all : List Keyword :=
  [decl .varDecl, decl .letDecl, decl .constDecl, forLoop, whileLoop, ifBranch, elseBranch,
    function, returnJump, breakJump, continueJump]

/-- How a keyword is written. -/
def spelling : Keyword → String
  | decl kind => kind.spelling
  | forLoop => "for"
  | whileLoop => "while"
  | ifBranch => "if"
  | elseBranch => "else"
  | function => "function"
  | returnJump => "return"
  | breakJump => "break"
  | continueJump => "continue"

/-- The keyword written `word`, if there is one. -/
def ofSpelling? (word : String) : Option Keyword :=
  all.find? fun keyword => keyword.spelling == word

end Keyword

/-! ### Marks -/

/-- Operators and punctuation. -/
inductive Mark where
  | equal
  | notEqual
  | lessEqual
  | greaterEqual
  | andAnd
  | orOr
  | plus
  | minus
  | star
  | slash
  | percent
  | assign
  | less
  | greater
  | bang
  | leftParen
  | rightParen
  | leftBrace
  | rightBrace
  | leftBracket
  | rightBracket
  | comma
  | semicolon
  | dot
deriving DecidableEq

namespace Mark

/-- Every mark, once; a mark stands before those whose spelling begins its own. -/
def all : List Mark :=
  [equal, notEqual, lessEqual, greaterEqual, andAnd, orOr, plus, minus, star, slash, percent,
    assign, less, greater, bang, leftParen, rightParen, leftBrace, rightBrace, leftBracket,
    rightBracket, comma, semicolon, dot]

/-- How a mark is written. -/
def spelling : Mark → String
  | equal => "=="
  | notEqual => "!="
  | lessEqual => "<="
  | greaterEqual => ">="
  | andAnd => "&&"
  | orOr => "||"
  | plus => "+"
  | minus => "-"
  | star => "*"
  | slash => "/"
  | percent => "%"
  | assign => "="
  | less => "<"
  | greater => ">"
  | bang => "!"
  | leftParen => "("
  | rightParen => ")"
  | leftBrace => "\x7b"
  | rightBrace => "\x7d"
  | leftBracket => "["
  | rightBracket => "]"
  | comma => ","
  | semicolon => ";"
  | dot => "."

/-- The mark with which `text` begins. The order of `all` makes it the longest such mark. -/
def leading? (text : List Char) : Option Mark :=
  all.find? fun mark => mark.spelling.toList.isPrefixOf text

end Mark

/-! ### Token kinds -/

/-- What a token is, apart from its place. A string literal keeps the text between its quotes as
it is written, escapes included. -/
inductive Token.Kind where
  | keyword (keyword : Keyword)
  | consoleLog
  | identifier (name : String)
  | number (value : Int)
  | string (raw : String)
  | mark (mark : Mark)
deriving DecidableEq

namespace Token.Kind

/-- How a token is written in a source text. -/
def spelling : Kind → String
  | keyword k => k.spelling
  | consoleLog => "console.log"
  | identifier name => name
  | number value => value.repr
  | string raw => "\"" ++ raw ++ "\""
  | mark m => m.spelling

/-- How a token is named in a message: what varies is announced by its class, what is fixed
stands in quotes. -/
def describe : Kind → String
  | identifier name => "identifier '" ++ name ++ "'"
  | number value => "number " ++ value.repr
  | string raw => "string \"" ++ raw ++ "\""
  | kind => "'" ++ kind.spelling ++ "'"

/-- Does this token start a variable declaration? -/
def isDeclaration : Kind → Bool
  | keyword (.decl _) => true
  | _ => false

end Token.Kind

/-- A token and its place in the source text. -/
structure Token where
  kind : Token.Kind
  span : Span
deriving DecidableEq

end Offside
