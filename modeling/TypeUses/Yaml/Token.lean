import TypeUses.Yaml.Scalar

/-!
# YAML — tokens

The tokens of a text are its scalars and signs and, where the layout opens or closes a mapping,
tokens that say so: a mapping in block layout opens at the first key that is indented more than
what is around it, and closes before the first token that is indented less.

A key needs no sign of its own: any node that a colon follows in the same line is one.  The scanner
therefore remembers where such a *simple key* may begin (`SimpleKey`), and puts the key's token
there when it meets the colon.

Sequences are no part of what is read here; a text that holds one has no tokens.
-/

namespace TypeUses.Yaml

/-- The tokens of a text. -/
inductive Token
  | versionDirective (major minor : Nat)
  | tagDirective (handle value : String)
  | documentStart
  | documentEnd
  | blockMappingStart
  | blockEnd
  | flowMappingStart
  | flowMappingEnd
  | flowEntry
  | key
  | value
  | alias (name : String)
  | anchor (name : String)
  | tag (handle suffix : String)
  | scalar (style : Style) (text : String)
deriving DecidableEq, Repr

/-- A place where a simple key may begin: before which token it would stand, and whether the layout
allows nothing else there. -/
structure SimpleKey where
  isRequired : Bool
  position : Nat
  index : Nat
  line : Nat
  column : Nat
deriving Repr

/-- The state of a scan: where it stands, the tokens so far, and how the place is nested. -/
structure Scanner where
  cursor : Cursor
  tokens : Array Token := #[]
  /-- the indentations of the open block mappings, innermost first -/
  indents : List Nat := []
  /-- whether a key may begin here -/
  keyAllowed : Bool := true
  /-- the key that may have begun inside the innermost brace, or in the layout -/
  key : Option SimpleKey := none
  /-- the keys of what is around the innermost brace -/
  outerKeys : List (Option SimpleKey) := []

namespace Scanner

/-- Whether the scanner stands within braces. -/
def inFlow (s : Scanner) : Bool := !s.outerKeys.isEmpty

/-- The scanner with one more token. -/
def emit (s : Scanner) (token : Token) : Scanner := { s with tokens := s.tokens.push token }

/-- The scanner behind the next `n` characters. -/
def pass (s : Scanner) (n : Nat) : Scanner := { s with cursor := s.cursor.advance n }

/-! ### Layout -/

/-- Whether a column lies to the right of the innermost block mapping. -/
def isDeeper (s : Scanner) (column : Nat) : Bool :=
  match s.indents with
  | indent :: _ => indent < column
  | [] => true

/-- Opens a block mapping at a column, before token `position`, if the column is indented more. -/
def openBlock (s : Scanner) (column position : Nat) : Scanner :=
  if !s.inFlow && s.isDeeper column then
    { s with
      indents := column :: s.indents
      tokens := s.tokens.insertIdxIfInBounds position .blockMappingStart }
  else s

/-- Closes the block mappings that a predicate on their indentation selects. -/
def closeBlocks (s : Scanner) (closes : Nat → Bool) : Scanner :=
  if s.inFlow then s
  else
    let closed := s.indents.takeWhile closes
    { s with
      indents := s.indents.drop closed.length
      tokens := s.tokens ++ closed.map fun _ => Token.blockEnd }

/-! ### Simple keys -/

/-- Gives up a key that is too far behind: in another line, or more than 1024 characters away. -/
def dropStale (s : Scanner) (key : Option SimpleKey) : Option (Option SimpleKey) :=
  match key with
  | none => some none
  | some k =>
    if k.line < s.cursor.line || k.index + 1024 < s.cursor.index then
      if k.isRequired then none else some none
    else some (some k)

/-- Gives up every key that is too far behind; nothing if one of them had to be a key. -/
def dropStaleKeys? (s : Scanner) : Option Scanner := do
  let key ← s.dropStale s.key
  let outer ← s.outerKeys.mapM s.dropStale
  return { s with key := key, outerKeys := outer }

/-- Gives up the key that may have begun; nothing if it had to be one. -/
def dropKey? (s : Scanner) : Option Scanner :=
  match s.key with
  | some k => if k.isRequired then none else some { s with key := none }
  | none => some s

/-- Remembers that a key may begin here. -/
def noteKey? (s : Scanner) : Option Scanner := do
  if s.keyAllowed then
    let s ← s.dropKey?
    let isRequired := !s.inFlow && s.indents.head? = some s.cursor.column
    return { s with
      key := some ⟨isRequired, s.tokens.size, s.cursor.index, s.cursor.line, s.cursor.column⟩ }
  else return s

/-! ### White space and comments -/

/-- Skips what stands between tokens.  A new line in block layout allows a key again, and only where
no key is allowed, or within braces, do tabs count as blanks. -/
def skipFrom (s : Scanner) : (bound : Nat) → Scanner
  | 0 => s
  | bound + 1 =>
    let c := if s.cursor.column = 0 && s.cursor.peek = '\uFEFF' then s.cursor.skip else s.cursor
    let tabs := s.inFlow || !s.keyAllowed
    let c := c.skipWhile fun ch => ch = ' ' || (tabs && ch = '\t')
    let c := if c.peek = '#' then c.skipWhile fun ch => !isBreakOrEnd ch else c
    if isBreak c.peek then
      { s with cursor := c.skipBreak, keyAllowed := s.keyAllowed || !s.inFlow }.skipFrom bound
    else { s with cursor := c }

/-- Skips what stands between tokens, up to the next of them or the end. -/
def skipToToken (s : Scanner) : Scanner := s.skipFrom (s.cursor.rest.length + 1)

/-! ### Directives -/

/-- The number that comes next, of at most nine digits. -/
def number? (c : Cursor) : Option (Nat × Cursor) :=
  let (digits, c) := c.takeWhile Char.isDigit
  if digits.isEmpty || 9 < digits.length then none
  else some (digits.foldl (fun n d => 10 * n + (d.toNat - '0'.toNat)) 0, c)

/-- The characters of tags and of the meanings of tag handles. -/
def isUriChar (inBrackets : Bool) (c : Char) : Bool :=
  isNameChar c ||
    [';', '/', '?', ':', '@', '&', '=', '+', '$', '.', '%', '!', '~', '*', '\'', '(', ')'].contains
      c ||
    (inBrackets && [',', '[', ']'].contains c)

/-- A tag handle: an exclamation mark, or two with a name between them. -/
def handle? (c : Cursor) : Option (String × Cursor) :=
  if c.peek = '!' then
    let (name, c) := c.skip.takeWhile isNameChar
    if c.peek = '!' then some ("!" ++ String.ofList name ++ "!", c.skip)
    else some ("!" ++ String.ofList name, c)
  else none

/-- What follows `%TAG`: a handle and its meaning. -/
def tagDirective? (c : Cursor) : Option (Token × Cursor) := do
  let (handle, c) ← handle? (c.skipWhile isBlank)
  if !handle.endsWith "!" || !isBlank c.peek then none
  let (value, c) := (c.skipWhile isBlank).takeWhile (isUriChar true)
  if value.isEmpty || !isSpacing c.peek then none
  return (.tagDirective handle (String.ofList value), c)

/-- What follows `%YAML`: the two numbers of a version. -/
def versionDirective? (c : Cursor) : Option (Token × Cursor) := do
  let (major, c) ← number? (c.skipWhile isBlank)
  if c.peek != '.' then none
  let (minor, c) ← number? c.skip
  return (.versionDirective major minor, c)

/-- A directive, from a cursor at its percent sign. -/
def directive? (s : Scanner) : Option Scanner := do
  let s ← (s.closeBlocks fun _ => true).dropKey?
  let (name, c) := s.cursor.skip.takeWhile isNameChar
  if !isSpacing c.peek then none
  let (token, c) ←
    match String.ofList name with
    | "YAML" => versionDirective? c
    | "TAG" => tagDirective? c
    | _ => none
  return { s.emit token with cursor := ← c.endLine?, keyAllowed := false }

/-! ### Nodes -/

/-- An anchor or alias: its name. -/
def anchorName? (c : Cursor) : Option (String × Cursor) :=
  let (name, c) := c.skip.takeWhile isNameChar
  if name.isEmpty then none
  else if isSpacing c.peek || ['?', ':', ',', ']', '\x7d', '%', '@', '`'].contains c.peek then
    some (String.ofList name, c)
  else none

/-- A tag as it stands: a handle, empty if the tag is given in full, and a suffix. -/
def tagParts? (c : Cursor) : Option (String × String × Cursor) := do
  if c.peekAt 1 = '<' then
    let (uri, c) := (c.advance 2).takeWhile (isUriChar true)
    if uri.isEmpty || c.peek != '>' then none
    return ("", String.ofList uri, c.skip)
  else
    let (handle, c) ← handle? c
    let (suffix, c) := c.takeWhile (isUriChar false)
    if 1 < handle.length && handle.endsWith "!" then
      if suffix.isEmpty then none
      return (handle, String.ofList suffix, c)
    else
      let suffix := (handle.drop 1).toString ++ String.ofList suffix
      if suffix.isEmpty then return ("", "!", c)
      else return ("!", suffix, c)

/-- A tag, which a blank or a comma has to follow. -/
def tag? (s : Scanner) : Option Scanner := do
  let (handle, suffix, c) ← tagParts? s.cursor
  if !(isSpacing c.peek || (s.inFlow && c.peek = ',')) then none
  return { s.emit (.tag handle suffix) with cursor := c }

/-- A plain scalar; in block layout its lines are indented more than what is around it. -/
def plain? (s : Scanner) : Option Scanner := do
  let margin := (s.indents.head?.map (· + 1)).getD 0
  let p ← Yaml.plain? s.inFlow margin s.cursor
  return { s.emit (.scalar .plain (String.ofList p.value)) with
    cursor := p.cursor
    keyAllowed := p.endsLine }

/-- A quoted scalar. -/
def quoted? (s : Scanner) : Option Scanner := do
  let style := if s.cursor.peek = '"' then Style.doubleQuoted else .singleQuoted
  let (value, c) ← Yaml.quoted? s.cursor
  return { s.emit (.scalar style (String.ofList value)) with cursor := c }

/-- A block scalar, which cannot be a simple key. -/
def block? (s : Scanner) : Option Scanner := do
  let s ← s.dropKey?
  let (style, value, c) ← Yaml.block? s.indents.head? s.cursor
  return { s.emit (.scalar style (String.ofList value)) with cursor := c, keyAllowed := true }

/-- A node that may be a simple key. -/
def keyLike? (s : Scanner) (read : Scanner → Option Scanner) : Option Scanner := do
  read { ← s.noteKey? with keyAllowed := false }

/-! ### Signs -/

/-- The three characters that start or end a document, and with it all block mappings. -/
def documentMark? (s : Scanner) (token : Token) : Option Scanner := do
  let s ← (s.closeBlocks fun _ => true).dropKey?
  return { (s.pass 3).emit token with keyAllowed := false }

/-- An opening brace, which may itself begin a key. -/
def openFlow? (s : Scanner) : Option Scanner := do
  let s ← s.noteKey?
  return { (s.pass 1).emit .flowMappingStart with
    outerKeys := s.key :: s.outerKeys
    key := none
    keyAllowed := true }

/-- A closing brace, which brings back the key of what is around it. -/
def closeFlow? (s : Scanner) : Option Scanner := do
  let s ← s.dropKey?
  let s := (s.pass 1).emit .flowMappingEnd
  match s.outerKeys with
  | key :: outer => return { s with key := key, outerKeys := outer, keyAllowed := false }
  | [] => return { s with keyAllowed := false }

/-- A comma between the entries within braces. -/
def flowEntry? (s : Scanner) : Option Scanner := do
  let s ← s.dropKey?
  return { (s.pass 1).emit .flowEntry with keyAllowed := true }

/-- A question mark in front of a key. -/
def keySign? (s : Scanner) : Option Scanner := do
  if !s.inFlow && !s.keyAllowed then none
  let s ← (s.openBlock s.cursor.column s.tokens.size).dropKey?
  return { (s.pass 1).emit .key with keyAllowed := !s.inFlow }

/-- A colon: what began at the simple key, if there is one, is the key. -/
def valueSign? (s : Scanner) : Option Scanner := do
  match s.key with
  | some k =>
    let s := { s with tokens := s.tokens.insertIdxIfInBounds k.position .key, key := none }
    let s := s.openBlock k.column k.position
    return { (s.pass 1).emit .value with keyAllowed := false }
  | none =>
    if !s.inFlow && !s.keyAllowed then none
    let s := s.openBlock s.cursor.column s.tokens.size
    return { (s.pass 1).emit .value with keyAllowed := !s.inFlow }

/-! ### The next token -/

/-- Characters that begin something else than a plain scalar. -/
def isIndicator (c : Char) : Bool :=
  ['-', '?', ':', ',', '[', ']', '\x7b', '\x7d', '#', '&', '*', '!', '|', '>', '\'', '"', '%', '@',
    '`'].contains c

/-- Whether a plain scalar begins at the cursor. -/
def startsPlain (s : Scanner) : Bool :=
  let c := s.cursor.peek
  let next := s.cursor.peekAt 1
  !(isSpacing c || isIndicator c) || (c = '-' && !isBlank next) ||
    (!s.inFlow && (c = '?' || c = ':') && !isSpacing next)

/-- Reads the next token, which the cursor has reached. -/
def token? (s : Scanner) : Option Scanner :=
  let c := s.cursor
  let isSign := s.inFlow || isSpacing (c.peekAt 1)
  if c.column = 0 && c.peek = '%' then s.directive?
  else if c.atDocumentMark '-' then s.documentMark? .documentStart
  else if c.atDocumentMark '.' then s.documentMark? .documentEnd
  else
    match c.peek with
    | '\x7b' => s.openFlow?
    | '\x7d' => s.closeFlow?
    | ',' => s.flowEntry?
    | '[' => none
    | ']' => none
    | '*' => s.keyLike? fun s => do
      let (name, c) ← anchorName? s.cursor
      return { s.emit (.alias name) with cursor := c }
    | '&' => s.keyLike? fun s => do
      let (name, c) ← anchorName? s.cursor
      return { s.emit (.anchor name) with cursor := c }
    | '!' => s.keyLike? tag?
    | '\'' => s.keyLike? quoted?
    | '"' => s.keyLike? quoted?
    | ch =>
      if ch = '-' && isSpacing (c.peekAt 1) then none
      else if ch = '?' && isSign then s.keySign?
      else if ch = ':' && isSign then s.valueSign?
      else if (ch = '|' || ch = '>') && !s.inFlow then s.block?
      else if s.startsPlain then s.keyLike? plain?
      else none

/-- The tokens from here to the end of the text. -/
def tokensFrom? (s : Scanner) : (bound : Nat) → Option (List Token)
  | 0 => none
  | bound + 1 => do
    let s ← s.skipToToken.dropStaleKeys?
    let s := s.closeBlocks fun indent => s.cursor.column < indent
    if isEnd s.cursor.peek then
      let s ← (s.closeBlocks fun _ => true).dropKey?
      return s.tokens.toList
    else
      let s ← s.token?
      s.tokensFrom? bound

end Scanner

/-- The tokens of a text, if it has any. -/
def tokens? (text : String) : Option (List Token) :=
  let cs := text.toList
  if cs.all isAllowed then
    ({ cursor := { rest := cs } } : Scanner).tokensFrom? (cs.length + 2)
  else none

end TypeUses.Yaml
