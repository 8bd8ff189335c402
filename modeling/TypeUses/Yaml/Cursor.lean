/-!
# YAML — characters and places in a text

A cursor is a place in a text: what is left of it, and the number of characters, of line breaks
and of characters of the current line that lie before it.  Past the end of the text a cursor sees
the character NUL, which no text may hold (`isAllowed`).
-/

namespace TypeUses.Yaml

/-! ### Characters -/

/-- Whether a character is a space or a tab. -/
def isBlank (c : Char) : Bool := c = ' ' || c = '\t'

/-- Whether a character ends a line. -/
def isBreak (c : Char) : Bool :=
  c = '\n' || c = '\r' || c = '\u0085' || c = '\u2028' || c = '\u2029'

/-- Whether a character is the one that is seen past the end of a text. -/
def isEnd (c : Char) : Bool := c = '\x00'

/-- Whether a line ends at a character. -/
def isBreakOrEnd (c : Char) : Bool := isBreak c || isEnd c

/-- Whether a character stands between others: a blank, a line break or the end. -/
def isSpacing (c : Char) : Bool := isBlank c || isBreakOrEnd c

/-- The characters of names of anchors, directives and tag handles. -/
def isNameChar (c : Char) : Bool := c.isAlphanum || c = '_' || c = '-'

/-- Whether a text may hold a character. -/
def isAllowed (c : Char) : Bool :=
  let n := c.toNat
  n = 0x09 || n = 0x0A || n = 0x0D || (0x20 ≤ n && n ≤ 0x7E) || n = 0x85 ||
    (0xA0 ≤ n && n ≤ 0xD7FF) || (0xE000 ≤ n && n ≤ 0xFFFD) || (0x10000 ≤ n && n ≤ 0x10FFFF)

/-- The character by which a line break stands in the value of a scalar. -/
def breakValue (c : Char) : Char :=
  if c = '\u2028' || c = '\u2029' then c else '\n'

/-! ### Cursors -/

/-- A place in a text. -/
structure Cursor where
  rest : List Char
  index : Nat := 0
  line : Nat := 0
  column : Nat := 0
deriving Repr

namespace Cursor

/-- The character that stands `n` places on. -/
def peekAt (c : Cursor) (n : Nat) : Char := c.rest.getD n '\x00'

/-- The character at the cursor. -/
def peek (c : Cursor) : Char := c.peekAt 0

/-- The cursor `n` characters on in the same line. -/
def advance (c : Cursor) (n : Nat) : Cursor :=
  { c with rest := c.rest.drop n, index := c.index + n, column := c.column + n }

/-- The cursor behind the next character. -/
def skip (c : Cursor) : Cursor := c.advance 1

/-- The cursor at the start of the next line, from one at a line break. -/
def skipBreak (c : Cursor) : Cursor :=
  let n := if c.peek = '\r' && c.peekAt 1 = '\n' then 2 else 1
  { rest := c.rest.drop n, index := c.index + n, line := c.line + 1, column := 0 }

/-- The characters of a kind that come next, and the cursor behind them. -/
def takeWhile (c : Cursor) (p : Char → Bool) : List Char × Cursor :=
  let taken := c.rest.takeWhile p
  (taken, c.advance taken.length)

/-- The cursor behind the characters of a kind that come next. -/
def skipWhile (c : Cursor) (p : Char → Bool) : Cursor := (c.takeWhile p).2

/-- Whether a line begins here that starts or ends a document. -/
def atDocumentMark (c : Cursor) (mark : Char) : Bool :=
  c.column = 0 && c.peek = mark && c.peekAt 1 = mark && c.peekAt 2 = mark && isSpacing (c.peekAt 3)

/-- Whether a line begins here that starts or ends a document, whichever it does. -/
def atAnyDocumentMark (c : Cursor) : Bool :=
  c.atDocumentMark '-' || c.atDocumentMark '.'

/-- Skips blanks and a comment, up to the end of the line. -/
def skipToLineEnd (c : Cursor) : Cursor :=
  let c := c.skipWhile isBlank
  if c.peek = '#' then c.skipWhile fun ch => !isBreakOrEnd ch else c

/-- The cursor behind the rest of a line that may hold nothing but blanks and a comment. -/
def endLine? (c : Cursor) : Option Cursor :=
  let c := c.skipToLineEnd
  if isBreak c.peek then some c.skipBreak
  else if isEnd c.peek then some c
  else none

end Cursor

end TypeUses.Yaml
