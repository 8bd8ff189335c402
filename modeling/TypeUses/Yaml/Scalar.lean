import TypeUses.Yaml.Cursor

/-!
# YAML — scalars

A scalar is a text, written in one of five styles.  Plain and quoted scalars may go on over several
lines; the blanks and line breaks between two runs of other characters are their `Gap`, and stand in
the value as `Gap.value` says: blanks within a line as they are, one line break as a space, and of
several line breaks all but the first.  Block scalars keep the lines of a block, or fold them.

Each reader takes a cursor at the start of a scalar and gives its value with the cursor behind it,
or nothing if the text is not that of a scalar.
-/

namespace TypeUses.Yaml

/-- The ways in which a scalar can be written. -/
inductive Style
  | plain
  | singleQuoted
  | doubleQuoted
  | literal
  | folded
deriving DecidableEq, Repr

/-! ### Gaps -/

/-- The blanks and line breaks between two runs of other characters. -/
structure Gap where
  /-- the blanks before the first line break -/
  blanks : List Char := []
  /-- the values of the line breaks -/
  breaks : List Char := []
  /-- whether a line break that an escape takes away stands in front -/
  isJoined : Bool := false
deriving Repr

namespace Gap

/-- What stands in the value of a scalar for a gap. -/
def value (g : Gap) : List Char :=
  if g.isJoined then g.breaks
  else
    match g.breaks with
    | [] => g.blanks
    | ['\n'] => [' ']
    | '\n' :: more => more
    | breaks => breaks

/-- Whether the gap goes on in a later line. -/
def spansLines (g : Gap) : Bool := g.isJoined || !g.breaks.isEmpty

/-- Reads on in a gap.  In a line after the first, no tab may stand left of `margin`. -/
def readFrom (margin : Nat) (g : Gap) (c : Cursor) : (bound : Nat) → Option (Gap × Cursor)
  | 0 => some (g, c)
  | bound + 1 =>
    if isBlank c.peek then
      if g.spansLines then
        if c.peek = '\t' && c.column < margin then none else g.readFrom margin c.skip bound
      else { g with blanks := g.blanks ++ [c.peek] }.readFrom margin c.skip bound
    else if isBreak c.peek then
      { g with breaks := g.breaks ++ [breakValue c.peek] }.readFrom margin c.skipBreak bound
    else some (g, c)

/-- Reads on in a gap up to its end. -/
def read? (margin : Nat) (g : Gap) (c : Cursor) : Option (Gap × Cursor) :=
  g.readFrom margin c c.rest.length

end Gap

/-! ### Plain scalars -/

/-- The first of some characters, as a cursor would see it. -/
def headOf (cs : List Char) : Char := cs.headD '\x00'

/-- A run of characters of a plain scalar.  A colon before spacing ends it, and within braces so
does what belongs to them; a colon in front of these is no part of anything. -/
def plainRun (inFlow : Bool) : List Char → Option (List Char)
  | [] => some []
  | c :: rest =>
    if isSpacing c then some []
    else if inFlow && c = ':' && [',', '?', '[', ']', '\x7b', '\x7d'].contains (headOf rest) then
      none
    else if c = ':' && isSpacing (headOf rest) then some []
    else if inFlow && [',', '[', ']', '\x7b', '\x7d'].contains c then some []
    else (plainRun inFlow rest).map (c :: ·)

/-- A plain scalar: its value, whether the cursor behind it is in a later line, and that cursor. -/
structure PlainScalar where
  value : List Char
  endsLine : Bool
  cursor : Cursor

/-- Reads on in a plain scalar of which `value` and then `gap` are read.  Outside braces its later
lines begin at `margin` or to the right of it. -/
def plainFrom (inFlow : Bool) (margin : Nat) (value : List Char) (gap : Gap) (c : Cursor) :
    (bound : Nat) → Option PlainScalar
  | 0 => none
  | bound + 1 =>
    let ended : PlainScalar := ⟨value, gap.spansLines, c⟩
    if c.atAnyDocumentMark || c.peek = '#' then some ended
    else
      match plainRun inFlow c.rest with
      | none => none
      | some [] => some ended
      | some run =>
        let value := value ++ gap.value ++ run
        match Gap.read? margin {} (c.advance run.length) with
        | none => none
        | some (gap, c) =>
          if !inFlow && c.column < margin then some ⟨value, gap.spansLines, c⟩
          else plainFrom inFlow margin value gap c bound

/-- A plain scalar, from a cursor at its first character. -/
def plain? (inFlow : Bool) (margin : Nat) (c : Cursor) : Option PlainScalar :=
  plainFrom inFlow margin [] {} c (c.rest.length + 1)

/-! ### Quoted scalars -/

/-- A run of a quoted scalar, and what follows it; `isJoined` says that it ends in an escaped line
break. -/
structure QuotedRun where
  value : List Char := []
  isJoined : Bool := false
  cursor : Cursor

/-- A run of a single-quoted scalar, in which a quote is written twice. -/
def singleRun (value : List Char) (c : Cursor) : (bound : Nat) → QuotedRun
  | 0 => { value := value, cursor := c }
  | bound + 1 =>
    if c.peek = '\'' && c.peekAt 1 = '\'' then singleRun (value ++ ['\'']) (c.advance 2) bound
    else if c.peek = '\'' || isSpacing c.peek then { value := value, cursor := c }
    else singleRun (value ++ [c.peek]) c.skip bound

/-- The value of a hexadecimal digit. -/
def hexValue? (c : Char) : Option Nat :=
  if c.isDigit then some (c.toNat - '0'.toNat)
  else if 'a' ≤ c && c ≤ 'f' then some (c.toNat - 'a'.toNat + 10)
  else if 'A' ≤ c && c ≤ 'F' then some (c.toNat - 'A'.toNat + 10)
  else none

/-- The character with a number of so many hexadecimal digits. -/
def numberedChar? (digits : Nat) (cs : List Char) : Option Char := do
  let values ← (cs.take digits).mapM hexValue?
  if values.length < digits then none
  let n := values.foldl (fun n d => 16 * n + d) 0
  if n.isValidChar then some (Char.ofNat n) else none

/-- What the characters behind a backslash stand for, and how many they are. -/
def escape? : List Char → Option (Char × Nat)
  | '0' :: _ => some ('\x00', 1)
  | 'a' :: _ => some ('\x07', 1)
  | 'b' :: _ => some ('\x08', 1)
  | 't' :: _ => some ('\t', 1)
  | '\t' :: _ => some ('\t', 1)
  | 'n' :: _ => some ('\n', 1)
  | 'v' :: _ => some ('\x0b', 1)
  | 'f' :: _ => some ('\x0c', 1)
  | 'r' :: _ => some ('\r', 1)
  | 'e' :: _ => some ('\x1b', 1)
  | ' ' :: _ => some (' ', 1)
  | '"' :: _ => some ('"', 1)
  | '/' :: _ => some ('/', 1)
  | '\\' :: _ => some ('\\', 1)
  | 'N' :: _ => some ('\u0085', 1)
  | '_' :: _ => some ('\u00a0', 1)
  | 'L' :: _ => some ('\u2028', 1)
  | 'P' :: _ => some ('\u2029', 1)
  | 'x' :: rest => (numberedChar? 2 rest).map fun c => (c, 3)
  | 'u' :: rest => (numberedChar? 4 rest).map fun c => (c, 5)
  | 'U' :: rest => (numberedChar? 8 rest).map fun c => (c, 9)
  | _ => none

/-- A run of a double-quoted scalar, in which a backslash begins an escape. -/
def doubleRun (value : List Char) (c : Cursor) : (bound : Nat) → Option QuotedRun
  | 0 => some { value := value, cursor := c }
  | bound + 1 =>
    if c.peek = '"' || isSpacing c.peek then some { value := value, cursor := c }
    else if c.peek = '\\' then
      if isBreak (c.peekAt 1) then
        some { value := value, isJoined := true, cursor := c.skip.skipBreak }
      else
        match escape? c.skip.rest with
        | some (ch, n) => doubleRun (value ++ [ch]) (c.advance (n + 1)) bound
        | none => none
    else doubleRun (value ++ [c.peek]) c.skip bound

/-- Reads on in a quoted scalar of which `value` is read. -/
def quotedFrom (quote : Char) (value : List Char) (c : Cursor) :
    (bound : Nat) → Option (List Char × Cursor)
  | 0 => none
  | bound + 1 =>
    if c.atAnyDocumentMark || isEnd c.peek then none
    else
      let run? :=
        if quote = '"' then doubleRun [] c c.rest.length else some (singleRun [] c c.rest.length)
      match run? with
      | none => none
      | some run =>
        let value := value ++ run.value
        if run.cursor.peek = quote then some (value, run.cursor.skip)
        else
          match Gap.read? 0 { isJoined := run.isJoined } run.cursor with
          | none => none
          | some (gap, c) => quotedFrom quote (value ++ gap.value) c bound

/-- A quoted scalar, from a cursor at its first quote. -/
def quoted? (c : Cursor) : Option (List Char × Cursor) :=
  quotedFrom c.peek [] c.skip (c.rest.length + 1)

/-! ### Block scalars -/

/-- What becomes of the line breaks at the end of a block. -/
inductive Chomping
  | strip
  | clip
  | keep
deriving DecidableEq, Repr

/-- What stands behind the indicator of a block scalar. -/
structure BlockHeader where
  chomping : Chomping := .clip
  /-- by how much the block is indented, if the header says so -/
  increment : Option Nat := none

/-- Adds one character to a header, if it can stand there. -/
def BlockHeader.add? (h : BlockHeader) (c : Char) : Option BlockHeader :=
  if c = '+' then some { h with chomping := .keep }
  else if c = '-' then some { h with chomping := .strip }
  else if c.isDigit && c != '0' then some { h with increment := some (c.toNat - '0'.toNat) }
  else none

/-- Whether a character says what becomes of the last line breaks of a block. -/
def isHeaderSign (c : Char) : Bool := c = '+' || c = '-'

/-- The header of a block: a sign and a digit, either or both, in any order. -/
def blockHeader? (c : Cursor) : Option (BlockHeader × Cursor) := do
  let fits (first second : Char) : Bool :=
    (isHeaderSign first && second.isDigit) || (first.isDigit && isHeaderSign second)
  if isHeaderSign c.peek || c.peek.isDigit then
    let h ← ({} : BlockHeader).add? c.peek
    if fits c.peek (c.peekAt 1) then return (← h.add? (c.peekAt 1), c.advance 2)
    else return (h, c.skip)
  else return ({}, c)

/-- The empty lines at the start of a block or between its lines: their line breaks, the column of
the widest, and the cursor behind them.  Without a margin every indentation is skipped. -/
structure EmptyLines where
  breaks : List Char := []
  widest : Nat := 0
  cursor : Cursor

/-- Reads on in empty lines. -/
def emptyLinesFrom (margin : Option Nat) (lines : EmptyLines) : (bound : Nat) → Option EmptyLines
  | 0 => some lines
  | bound + 1 =>
    let isInside (column : Nat) : Bool := (margin.map fun m => decide (column < m)).getD true
    let blanks := lines.cursor.rest.takeWhile (· = ' ')
    let width := match margin with
      | some m => min blanks.length (m - lines.cursor.column)
      | none => blanks.length
    let c := lines.cursor.advance width
    let widest := max lines.widest c.column
    if isInside c.column && c.peek = '\t' then none
    else if isBreak c.peek then
      emptyLinesFrom margin ⟨lines.breaks ++ [breakValue c.peek], widest, c.skipBreak⟩ bound
    else some ⟨lines.breaks, widest, c⟩

/-- The lines of a block read so far. -/
structure Block where
  value : List Char := []
  /-- the break of the last line -/
  lastBreak : List Char := []
  /-- the breaks of the empty lines since -/
  breaks : List Char := []
  /-- whether the last line begins with a blank, which keeps it from being folded -/
  isIndented : Bool := false

/-- The block with one more line. -/
def Block.addLine (b : Block) (isFolded : Bool) (line : List Char) (lineBreak : List Char)
    (breaks : List Char) : Block :=
  let startsBlank := isBlank (headOf line)
  let joint :=
    if isFolded && b.lastBreak = ['\n'] && !b.isIndented && !startsBlank then
      if b.breaks.isEmpty then [' '] else []
    else b.lastBreak
  { value := b.value ++ joint ++ b.breaks ++ line
    lastBreak := lineBreak
    breaks := breaks
    isIndented := startsBlank }

/-- The value of a block at its end. -/
def Block.chomp (b : Block) : Chomping → List Char
  | .strip => b.value
  | .clip => b.value ++ b.lastBreak
  | .keep => b.value ++ b.lastBreak ++ b.breaks

/-- Reads on in a block whose lines begin at `margin`. -/
def blockFrom (isFolded : Bool) (margin : Nat) (b : Block) (c : Cursor) :
    (bound : Nat) → Option (Block × Cursor)
  | 0 => none
  | bound + 1 =>
    if c.column = margin && !isEnd c.peek then
      let (line, c) := c.takeWhile fun ch => !isBreakOrEnd ch
      let (lineBreak, c) :=
        if isBreak c.peek then ([breakValue c.peek], c.skipBreak) else ([], c)
      match emptyLinesFrom (some margin) { cursor := c } (c.rest.length + 1) with
      | none => none
      | some lines => blockFrom isFolded margin (b.addLine isFolded line lineBreak lines.breaks)
          lines.cursor bound
    else some (b, c)

/-- A block scalar, from a cursor at its indicator.  `indent` is the indentation of the collection
around it, if there is one. -/
def block? (indent : Option Nat) (c : Cursor) : Option (Style × List Char × Cursor) := do
  let isFolded := c.peek = '>'
  let (header, c) ← blockHeader? c.skip
  let c ← c.endLine?
  let given := header.increment.map fun n => indent.getD 0 + n
  let lines ← emptyLinesFrom given { cursor := c } (c.rest.length + 1)
  let least := max ((indent.map (· + 1)).getD 0) 1
  let margin := given.getD (max lines.widest least)
  let (b, c) ← blockFrom isFolded margin { breaks := lines.breaks } lines.cursor (c.rest.length + 1)
  return (if isFolded then .folded else .literal, b.chomp header.chomping, c)

end TypeUses.Yaml
