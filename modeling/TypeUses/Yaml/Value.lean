import TypeUses.Yaml.Token

/-!
# YAML — values

A document is a scalar or a mapping of values to values; entries keep their order, and keys may
repeat.  A value may have a tag, and an anchor by which an alias later in the document stands for
it.

`read?` gives the one document of a text, a plain empty scalar if the text holds none.  It is
nothing if the text is malformed, holds a sequence, or holds more than one document.
-/

namespace TypeUses.Yaml

/-- A value of a document. -/
inductive Value where
  | scalar (tag : Option String) (style : Style) (text : String)
  | mapping (tag : Option String) (entries : List (Value × Value))
deriving Repr

/-- The value where nothing is written. -/
def Value.empty : Value := scalar none .plain ""

/-! ### Directives -/

/-- What the directives of a document say: the meanings of tag handles, and whether a version is
given. -/
structure Directives where
  handles : List (String × String) := []
  hasVersion : Bool := false

/-- The meaning of a tag handle, by a directive or by default. -/
def Directives.handle? (d : Directives) (handle : String) : Option String :=
  (d.handles ++ [("!", "!"), ("!!", "tag:yaml.org,2002:")]).lookup handle

/-- The directives in front of a document; a handle or the version may be given once, and the
version has to be 1.1 or 1.2. -/
def directives? (d : Directives) : List Token → Option (Directives × List Token)
  | .versionDirective major minor :: rest =>
    if d.hasVersion || major != 1 || (minor != 1 && minor != 2) then none
    else directives? { d with hasVersion := true } rest
  | .tagDirective handle value :: rest =>
    if (d.handles.lookup handle).isSome then none
    else directives? { d with handles := (handle, value) :: d.handles } rest
  | tokens => some (d, tokens)

/-! ### Properties of values -/

/-- What may stand in front of a value. -/
structure Properties where
  anchor : Option String := none
  tag : Option String := none

/-- Whether nothing stands in front of a value. -/
def Properties.isEmpty (p : Properties) : Bool := p.anchor.isNone && p.tag.isNone

/-- A tag in full. -/
def resolveTag? (d : Directives) (handle suffix : String) : Option String :=
  if handle.isEmpty then some suffix else (d.handle? handle).map (· ++ suffix)

/-- The anchor and tag in front of a value, in either order. -/
def properties? (d : Directives) : List Token → Option (Properties × List Token)
  | .anchor name :: .tag handle suffix :: rest
  | .tag handle suffix :: .anchor name :: rest =>
    (resolveTag? d handle suffix).map fun tag => (⟨some name, some tag⟩, rest)
  | .anchor name :: rest => some (⟨some name, none⟩, rest)
  | .tag handle suffix :: rest =>
    (resolveTag? d handle suffix).map fun tag => (⟨none, some tag⟩, rest)
  | tokens => some ({}, tokens)

/-! ### Values and entries -/

/-- The values that anchors name, latest first. -/
abbrev Anchors := List (String × Value)

/-- What is read, the anchors after it, and the tokens behind it. -/
abbrev Parsed (α : Type) := α × Anchors × List Token

/-- Whether a token ends the place of a key or value in a block mapping, so that nothing stands
there. -/
def endsBlockPart : List Token → Bool
  | .key :: _ | .value :: _ | .blockEnd :: _ => true
  | _ => false

/-- Whether a token ends the place of a key or value in braces. -/
def endsFlowPart : List Token → Bool
  | .flowEntry :: _ | .flowMappingEnd :: _ => true
  | _ => false

mutual

/-- A value.  Only in block layout may it be a mapping in block layout.  Every step down or along
takes one from `bound`; twice the number of tokens is enough. -/
def value? (d : Directives) (inBlock : Bool) (anchors : Anchors) (tokens : List Token) :
    (bound : Nat) → Option (Parsed Value)
  | 0 => none
  | bound + 1 =>
    match tokens with
    | .alias name :: rest => (anchors.lookup name).map fun n => (n, anchors, rest)
    | tokens => do
      let (p, tokens) ← properties? d tokens
      let (n, anchors, rest) ←
        match tokens with
        | .scalar style text :: rest => some (.scalar p.tag style text, anchors, rest)
        | .flowMappingStart :: rest => do
          let (entries, anchors, rest) ← flowEntries? d anchors true rest bound
          return (.mapping p.tag entries, anchors, rest)
        | .blockMappingStart :: rest =>
          if inBlock then do
            let (entries, anchors, rest) ← blockEntries? d anchors rest bound
            return (.mapping p.tag entries, anchors, rest)
          else if p.isEmpty then none
          else some (.scalar p.tag .plain "", anchors, tokens)
        | tokens => if p.isEmpty then none else some (.scalar p.tag .plain "", anchors, tokens)
      return (n, (p.anchor.map fun name => (name, n)).toList ++ anchors, rest)

/-- The entries of a block mapping, up to its end. -/
def blockEntries? (d : Directives) (anchors : Anchors) (tokens : List Token) :
    (bound : Nat) → Option (Parsed (List (Value × Value)))
  | 0 => none
  | bound + 1 =>
    match tokens with
    | .blockEnd :: rest => some ([], anchors, rest)
    | .key :: rest => do
      let (key, anchors, rest) ←
        if endsBlockPart rest then some (.empty, anchors, rest)
        else value? d true anchors rest bound
      let (value, anchors, rest) ←
        match rest with
        | .value :: rest =>
          if endsBlockPart rest then some (.empty, anchors, rest)
          else value? d true anchors rest bound
        | rest => some (.empty, anchors, rest)
      let (entries, anchors, rest) ← blockEntries? d anchors rest bound
      return ((key, value) :: entries, anchors, rest)
    | _ => none

/-- The entries of a mapping in braces, up to its end; between two entries stands a comma. -/
def flowEntries? (d : Directives) (anchors : Anchors) (isFirst : Bool) (tokens : List Token) :
    (bound : Nat) → Option (Parsed (List (Value × Value)))
  | 0 => none
  | bound + 1 =>
    match tokens with
    | .flowMappingEnd :: rest => some ([], anchors, rest)
    | tokens => do
      let tokens ←
        match isFirst, tokens with
        | true, tokens => some tokens
        | false, .flowEntry :: rest => some rest
        | false, _ => none
      match tokens with
      | .flowMappingEnd :: rest => return ([], anchors, rest)
      | .key :: rest =>
        let (key, anchors, rest) ←
          match rest with
          | .value :: _ => some (.empty, anchors, rest)
          | rest =>
            if endsFlowPart rest then some (.empty, anchors, rest)
            else value? d false anchors rest bound
        let (value, anchors, rest) ←
          match rest with
          | .value :: rest =>
            if endsFlowPart rest then some (.empty, anchors, rest)
            else value? d false anchors rest bound
          | rest => some (.empty, anchors, rest)
        let (entries, anchors, rest) ← flowEntries? d anchors false rest bound
        return ((key, value) :: entries, anchors, rest)
      | tokens =>
        let (key, anchors, rest) ← value? d false anchors tokens bound
        let (entries, anchors, rest) ← flowEntries? d anchors false rest bound
        return ((key, .empty) :: entries, anchors, rest)

end

/-! ### Documents -/

/-- Whether tokens begin with what cannot belong to the content of a document. -/
def startsNoContent : List Token → Bool
  | [] => true
  | .versionDirective .. :: _ | .tagDirective .. :: _ | .documentStart :: _
  | .documentEnd :: _ => true
  | _ => false

/-- The document of a list of tokens. -/
def document? (tokens : List Token) : Option Value := do
  let bound := 2 * tokens.length + 2
  let (d, rest) ← directives? {} tokens
  let (n, _, rest) ←
    match tokens, rest with
    | [], _ => some (.empty, [], [])
    | _, .documentStart :: rest =>
      if startsNoContent rest then some (.empty, [], rest) else value? d true [] rest bound
    | .versionDirective .. :: _, _ | .tagDirective .. :: _, _ => none
    | tokens, _ => value? {} true [] tokens bound
  if (rest.dropWhile (· = .documentEnd)).isEmpty then return n else none

/-- The document of a text. -/
def read? (text : String) : Option Value :=
  (tokens? text).bind document?

end TypeUses.Yaml
