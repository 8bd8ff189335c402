import TypeUses.Proofs.Command.Search

/-!
# Command line — what strictness refuses

A strict configuration refuses a source just where the parser has seen a fault in it, and reports
how many nodes of the parse are errors or missing and where the first of them stands.  Any other
configuration takes every source, and no configuration changes the tree of a source that it takes
(`strictness_exact`).

The faults are sought in the whole parse, tokens and comments included, which are not read
(`strictness_exact_token`).
-/

namespace TypeUses.Command

variable {grammar : Grammar} {config : Config} {language : Language} {source : ByteArray}
  {spelling : String}

section Parse
variable (hsmall : (grammar language source).items.length < Tree.capacity)
include hsmall

/-- A source is refused just by a strict configuration where the parser has seen a fault. -/
theorem treeOfSource_eq_error_iff {e : Error} :
    treeOfSource config grammar spelling source language = .error e ↔
      (config.strict = true ∧ (grammar language source).hasError = true) ∧
        ∃ first, (grammar language source).firstError? = some first ∧
          e = .parse spelling (.malformed first (grammar language source).errorCount) := by
  rw [treeOfSource_eq_iff hsmall]
  constructor
  · intro h
    cases h with
    | malformed hstrict herror hfirst => exact ⟨⟨hstrict, herror⟩, _, hfirst, rfl⟩
  · rintro ⟨⟨hstrict, herror⟩, first, hfirst, rfl⟩
    exact .malformed hstrict herror hfirst

/-- What is accepted has the tree of its parse. -/
theorem resolveNames_of_accepted {tree : Tree}
    (h : treeOfSource config grammar spelling source language = .ok tree) :
    ∃ stats, Resolution.resolveNames language source spelling (grammar language source) =
      .ok (tree, stats) := by
  cases (treeOfSource_eq_iff hsmall).1 h with
  | accepted _ hresolved => exact ⟨_, hresolved⟩

end Parse

/-- **Strictness is exact.**  Let the parser have seen every fault that it has marked.  Then the
count that is reported is the number of the errors and missing nodes in the whole parse.  The place
that is reported is that of the first of them in pre-order; the root's, if the parser has seen a
fault but marked none; and otherwise there is none.  A strict configuration refuses the source, with
this place and count, if and only if the parser has seen a fault.  One that is not strict takes it,
and any two that take it give the same tree. -/
theorem strictness_exact (grammar : Grammar) (language : Language) (source : ByteArray)
    (spelling : String) {parse : Concrete.Parse} (hparse : grammar language source = parse)
    (hsees : parse.SeesFaults) (hsmall : parse.root.preorder.length < Tree.capacity) :
    parse.errorCount = parse.root.preorder.countP Concrete.Item.isFault ∧
    parse.firstError? =
      ((parse.root.preorder.find? Concrete.Item.isFault).map Concrete.Item.location).or
        (if parse.hasError then some parse.root.item.location else none) ∧
    (∀ config : Config, config.strict = true →
      ((∃ e, treeOfSource config grammar spelling source language = .error e) ↔
        parse.hasError = true) ∧
      ∀ e, treeOfSource config grammar spelling source language = .error e →
        ∃ first, parse.firstError? = some first ∧
          e = .parse spelling (.malformed first parse.errorCount)) ∧
    (∀ config : Config, config.strict = false →
      ∃ tree, treeOfSource config grammar spelling source language = .ok tree) ∧
    ∀ config config' tree tree',
      treeOfSource config grammar spelling source language = .ok tree →
      treeOfSource config' grammar spelling source language = .ok tree' → tree = tree' := by
  subst hparse
  rw [← Concrete.Parse.items_eq_preorder] at hsmall
  refine ⟨Concrete.Parse.errorCount_eq hsees, Concrete.Parse.firstError?_eq hsees,
    fun config hstrict => ⟨⟨?_, fun herror => ?_⟩, fun e he => ?_⟩, fun config hstrict => ?_,
    fun config config' tree tree' h h' => ?_⟩
  · rintro ⟨e, he⟩
    exact ((treeOfSource_eq_error_iff hsmall).1 he).1.2
  · have hseen := Concrete.Parse.isSome_firstError? (grammar language source)
    rw [herror] at hseen
    obtain ⟨first, hfirst⟩ := Option.isSome_iff_exists.1 hseen
    exact ⟨_, (treeOfSource_eq_error_iff hsmall).2 ⟨⟨hstrict, herror⟩, first, hfirst, rfl⟩⟩
  · exact ((treeOfSource_eq_error_iff hsmall).1 he).2
  · cases hresult : treeOfSource config grammar spelling source language with
    | ok tree => exact ⟨tree, rfl⟩
    | error e =>
        obtain ⟨⟨hstrict', -⟩, -⟩ := (treeOfSource_eq_error_iff hsmall).1 hresult
        rw [hstrict] at hstrict'
        cases hstrict'
  · -- a tree that is accepted is that of the parse, whatever the configuration
    obtain ⟨stats, hresolved⟩ := resolveNames_of_accepted hsmall h
    obtain ⟨stats', hresolved'⟩ := resolveNames_of_accepted hsmall h'
    exact (Prod.mk.inj (Except.ok.inj (hresolved.symm.trans hresolved'))).1

/-- The parse of the source `A::B` as C: the second colon is an error, and a semicolon is missing.
-/
def colonParse : Concrete.Parse where
  root := .onLine .translationUnit none 0 4
    [.onLine .labeledStatement none 0 4
      [.onLine .statementIdentifier (some .label) 0 1 [], .token ":" 1,
        .node { kind := .error, isExtra := true, isError := true, start := 2, stop := 3, column := 2 }
          [.token ":" 2],
        .onLine (.other "expression_statement") none 3 4
          [.onLine .identifier none 3 4 [],
            .node { kind := .ofName ";", isNamed := false, isMissing := true, start := 4, stop := 4,
                    column := 4 } []]]]
  hasError := true

/-- The error, which is an extra, and the missing token are both counted. -/
theorem strictness_exact_token :
    colonParse.SeesFaults ∧ colonParse.root.preorder.length < Tree.capacity ∧
      treeOfSource { strict := true } (fun _ _ => colonParse) "t.c" "A::B".toUTF8 .c =
        .error (.parse "t.c" (.malformed ⟨1, 3⟩ 2)) ∧
      ∃ tree, treeOfSource {} (fun _ _ => colonParse) "t.c" "A::B".toUTF8 .c = .ok tree := by
  have hsees : colonParse.SeesFaults := fun _ _ _ => rfl
  have hsmall : colonParse.root.preorder.length < Tree.capacity := by decide +kernel
  obtain ⟨hcount, hfirst, hstrict, hloose, -⟩ :=
    strictness_exact (fun _ _ => colonParse) .c "A::B".toUTF8 "t.c" rfl hsees hsmall
  have hcount : colonParse.errorCount = 2 := hcount.trans (by decide +kernel)
  have hfirst : colonParse.firstError? = some ⟨1, 3⟩ := hfirst.trans (by decide +kernel)
  obtain ⟨hrefuses, herror⟩ := hstrict { strict := true } rfl
  obtain ⟨e, he⟩ := hrefuses.2 rfl
  obtain ⟨first, hf, rfl⟩ := herror e he
  obtain rfl := Option.some.inj (hf.symm.trans hfirst)
  rw [hcount] at he
  exact ⟨hsees, hsmall, he, hloose {} rfl⟩

end TypeUses.Command
