import TypeUses.Text.CaseTable

/-!
# Text — lower case, with the final sigma

`lower s` replaces every character of `s` by its lower-case form.  The form of a character is one
character, with one exception, and depends on the character alone, with one exception:

* the dotted capital I (`İ`) becomes the two characters `i` and U+0307;
* the capital sigma becomes `ς` at the end of a word and `σ` elsewhere.  It ends a word when,
  case-ignorable characters skipped, a cased letter stands before it and none stands after it
  (`endsWord`).
-/

namespace TypeUses.Text

/-- Whether a code point lies in one of the closed intervals of a table. -/
def inRanges (ranges : List (Nat × Nat)) (n : Nat) : Bool :=
  ranges.any fun range => range.1 ≤ n && n ≤ range.2

/-- Whether a character is a letter that has a case. -/
def isCased (c : Char) : Bool :=
  inRanges casedRanges c.toNat

/-- Whether a character is skipped when the end of a word is sought. -/
def isCaseIgnorable (c : Char) : Bool :=
  inRanges caseIgnorableRanges c.toNat

/-! ### One character -/

namespace CaseRun

/-- Whether a code point is one of those that the run maps. -/
def covers (r : CaseRun) (n : Nat) : Bool :=
  r.first ≤ n && n ≤ r.last && (n - r.first) % r.step == 0

/-- The lower-case form of a code point that the run covers. -/
def form (r : CaseRun) (n : Nat) : Nat :=
  r.target + (n - r.first)

end CaseRun

/-- The lower-case form of a character, the context-free one for the capital sigma. -/
def lowerChar (c : Char) : Char :=
  match caseRuns.find? (·.covers c.toNat) with
  | some run => Char.ofNat (run.form c.toNat)
  | none => c

/-! ### A text -/

/-- Whether a text, case-ignorable characters skipped, begins with a cased letter. -/
def meetsCased (cs : List Char) : Bool :=
  match cs.dropWhile isCaseIgnorable with
  | c :: _ => isCased c
  | [] => false

/-- Whether a letter ends a word, given the text before it, nearest character first, and the text
after it. -/
def endsWord (before after : List Char) : Bool :=
  meetsCased before && !meetsCased after

/-- The lower-case form of one character in its place. -/
def lowerAt (before : List Char) (c : Char) (after : List Char) : List Char :=
  if c = 'Σ' then [if endsWord before after then 'ς' else 'σ']
  else if c = 'İ' then ['i', '\u0307']
  else [lowerChar c]

/-- The lower-case form of the rest of a text, given what stands before it, nearest first. -/
def lowerFrom (before : List Char) : List Char → List Char
  | [] => []
  | c :: after => lowerAt before c after ++ lowerFrom (c :: before) after

/-- A text in lower case. -/
def lower (s : String) : String :=
  String.ofList (lowerFrom [] s.toList)

/-! ### ASCII letters only -/

/-- A text with the letters `A` to `Z` in lower case and every other character unchanged. -/
def asciiLower (s : String) : String :=
  String.ofList (s.toList.map Char.toLower)

end TypeUses.Text
