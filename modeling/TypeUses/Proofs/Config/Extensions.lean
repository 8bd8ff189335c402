import TypeUses.Config.Basic
import TypeUses.Proofs.Text.LowerCase

/-!
# Configuration — the letter case of extensions

Whether an extension is written with `A` to `Z` or with `a` to `z` makes no difference to the
language, neither in the languages' own extensions nor in the table of a configuration.

* `Language.ofExtension?_eq_some_iff`: an extension is that of a language if and only if, `A` to `Z`
  in lower case, it is one of the language's extensions.
* `Config.languageOfExtension?_eq`: a table whose keys have none of the letters `A` to `Z` is
  searched for the extension in lower case, and in front of the languages' own extensions.
* `Path.extension?_asciiLower`: the extension of a path in lower case is that of the path in lower
  case.
* `extensions_ignore_case`: all of it together, for the files at paths.

The languages' own extensions are compared with the lower-case form of all characters and the table
is searched by that of ASCII letters.  The two agree since no extension of a language has the
letter `k`, for which the Kelvin sign could stand.
-/

namespace TypeUses

open Text (asciiLower)

/-! ### The extensions of a language -/

namespace Language

/-- The extensions of the languages are written in ASCII, and without the letter `k`, which a sign
outside of ASCII has as its lower case. -/
theorem ascii_of_mem_extensions {language : Language} {word : String}
    (h : word ∈ language.extensions) : ∀ d ∈ word.toList, d.toNat < 128 ∧ d ≠ 'k' := by
  have table : ∀ language : Language, ∀ word ∈ language.extensions, ∀ d ∈ word.toList,
      d.toNat < 128 ∧ d ≠ 'k' := by
    rintro (_ | _) <;> simp [extensions]
  exact table language word h

/-- An extension is that of one language at the most. -/
theorem eq_of_mem_extensions {language language' : Language} {word : String}
    (h : word ∈ language.extensions) (h' : word ∈ language'.extensions) : language = language' := by
  have table : ∀ word ∈ extensions c, word ∉ extensions cpp := by decide +kernel
  cases language <;> cases language'
  · rfl
  · exact absurd h' (table word h)
  · exact absurd h (table word h')
  · rfl

theorem mem_all (language : Language) : language ∈ all := by
  cases language <;> decide

/-- **An extension is that of a language** if and only if, with `A` to `Z` in lower case, it is one
of the language's extensions. -/
theorem ofExtension?_eq_some_iff {ext : String} {language : Language} :
    ofExtension? ext = some language ↔ asciiLower ext ∈ language.extensions := by
  have known : ∀ l : Language, Text.lower ext ∈ l.extensions ↔ asciiLower ext ∈ l.extensions :=
    fun l => ⟨fun h => (Text.lower_eq_iff (ascii_of_mem_extensions h)).1 rfl ▸ h,
      fun h => (Text.lower_eq_iff (ascii_of_mem_extensions h)).2 rfl ▸ h⟩
  rw [← known language, ofExtension?]
  constructor
  · intro h
    simpa using List.find?_some h
  · intro h
    cases hfind : all.find? fun l => l.extensions.contains (Text.lower ext) with
    | none =>
        have hnone := List.find?_eq_none.1 hfind language (mem_all language)
        exact absurd (List.contains_iff_mem.2 h) hnone
    | some l =>
        have hl : Text.lower ext ∈ l.extensions := by simpa using List.find?_some hfind
        rw [eq_of_mem_extensions hl h]

/-- An extension that is known has ASCII characters only. -/
theorem ascii_of_ofExtension? {ext : String} {language : Language}
    (h : ofExtension? ext = some language) : ∀ d ∈ ext.toList, d.toNat < 128 := by
  have hmem := ofExtension?_eq_some_iff.1 h
  exact Text.ascii_of_asciiLower_eq (fun d hd => (ascii_of_mem_extensions hmem d hd).1) rfl

/-- The case of ASCII letters makes no difference to the language of an extension. -/
theorem ofExtension?_asciiLower (ext : String) :
    ofExtension? (asciiLower ext) = ofExtension? ext := by
  refine Option.ext fun language => ?_
  rw [ofExtension?_eq_some_iff, ofExtension?_eq_some_iff, Text.asciiLower_asciiLower]

end Language

/-! ### The extension of a path -/

namespace Path

/-- Lower case commutes with splitting at a mark that is no letter. -/
theorem splitOn_map_toLower {mark : Char} (hmark : mark.isAlpha = false) (cs : List Char) :
    (cs.map Char.toLower).splitOn mark = (cs.splitOn mark).map (List.map Char.toLower) := by
  induction cs with
  | nil => rfl
  | cons c cs ih =>
      rw [List.map_cons, List.splitOn_cons_eq_if_modifyHead, List.splitOn_cons_eq_if_modifyHead, ih]
      have hc : (c.toLower == mark) = (c == mark) := by
        rw [Bool.eq_iff_iff, beq_iff_eq, beq_iff_eq, Text.toLower_eq_iff hmark]
      rw [hc]
      split
      · rfl
      · cases cs.splitOn mark <;> rfl

theorem components_asciiLower (path : String) :
    components (asciiLower path) = (components path).map asciiLower := by
  rw [components, components, Text.toList_asciiLower, splitOn_map_toLower (by decide), List.map_map,
    List.map_map]
  exact List.map_congr_left fun cs _ => (Text.asciiLower_ofList cs).symm

theorem fileName?_asciiLower (path : String) :
    fileName? (asciiLower path) = (fileName? path).map asciiLower := by
  have hname : ∀ name : String, (asciiLower name != "" && asciiLower name != ".") =
      (name != "" && name != ".") := fun name => by
    rw [Bool.eq_iff_iff]
    simp [Text.asciiLower_eq_iff]
  have hfilter : ((fun c => c != "" && c != ".") ∘ asciiLower) = fun c => c != "" && c != "." :=
    funext hname
  rw [fileName?, fileName?, components_asciiLower, List.filter_map, List.getLast?_map, hfilter]
  cases ((components path).filter fun c => c != "" && c != ".").getLast? with
  | none => rfl
  | some name =>
      have hdots : asciiLower name = ".." ↔ name = ".." := Text.asciiLower_eq_iff (by simp)
      simp only [Option.map_some, hdots]
      split <;> rfl

/-- The extension of a name in lower case is that of the name, in lower case. -/
theorem extensionOfName?_asciiLower (name : String) :
    extensionOfName? (asciiLower name) = (extensionOfName? name).map asciiLower := by
  have hdot : ∀ c : Char, c.toLower = '.' ↔ c = '.' := fun c => Text.toLower_eq_iff (by decide)
  have hcomp : ((fun c => c != '.') ∘ Char.toLower) = fun c => c != '.' := funext fun c => by
    rw [Bool.eq_iff_iff]
    simp [hdot]
  simp only [extensionOfName?, Text.toList_asciiLower]
  rw [← List.map_reverse, List.takeWhile_map, List.length_map, ← List.map_drop, hcomp]
  generalize (name.toList.reverse.takeWhile fun c => c != '.') = ext
  have hext : String.ofList (ext.map Char.toLower).reverse =
      asciiLower (String.ofList ext.reverse) := by
    rw [Text.asciiLower_ofList, List.map_reverse]
  rw [hext]
  rcases name.toList.reverse.drop ext.length with _ | ⟨c, _ | ⟨d, rest⟩⟩
  · rfl
  · simp
  · by_cases hc : c = '.'
    · rw [hc]
      rfl
    · have hc' : c.toLower ≠ '.' := fun h => hc ((hdot c).1 h)
      simp [hc, hc']

/-- **The extension of a path in lower case** is that of the path in lower case. -/
theorem extension?_asciiLower (path : String) :
    extension? (asciiLower path) = (extension? path).map asciiLower := by
  rw [extension?, extension?, fileName?_asciiLower]
  cases fileName? path with
  | none => rfl
  | some name =>
      rw [Option.map_some, Option.bind_some, Option.bind_some, extensionOfName?_asciiLower]

end Path

/-! ### The table of a configuration -/

namespace Config

/-- No key of the configuration's table has one of the letters `A` to `Z`. -/
def LowerCaseKeys (config : Config) : Prop :=
  ∀ entry ∈ config.extensions, ∀ d ∈ entry.1.toList, d.isUpper = false

variable {config : Config}

/-- Only an extension without the letters `A` to `Z` is found as it is written. -/
theorem LowerCaseKeys.lookup (h : config.LowerCaseKeys) {ext : String} {language : Language}
    (hfound : config.extensions.lookup ext = some language) : asciiLower ext = ext := by
  obtain ⟨_, _, hmem, -⟩ := List.lookup_eq_some_iff.1 hfound
  refine Text.asciiLower_eq_self (h (ext, language) ?_)
  rw [hmem]
  exact List.mem_append_right _ List.mem_cons_self

/-- **The table is searched for the extension in lower case** and goes first. -/
theorem languageOfExtension?_eq (h : config.LowerCaseKeys) (ext : String) :
    config.languageOfExtension? ext =
      (config.extensions.lookup (asciiLower ext)).or (Language.ofExtension? (asciiLower ext)) := by
  rw [languageOfExtension?, Language.ofExtension?_asciiLower]
  cases hfound : config.extensions.lookup ext with
  | none => rw [Option.none_or]
  | some language => rw [h.lookup hfound, hfound, Option.some_or, Option.some_or]

/-- **Letter case makes no difference to the language of a file.**  An extension is that of a
language if and only if, with `A` to `Z` in lower case, it is one of the language's extensions, and
then it has ASCII characters only.  Where no key of a configuration's table has one of the letters
`A` to `Z`, the language of a file is the one that the configuration forces; else the one that its
table gives for the extension in lower case; else the one whose own extension this is.  So it is the
same for two paths whose extensions differ in the case of ASCII letters only, and so do the
extensions of two paths that differ in the case of ASCII letters only. -/
theorem extensions_ignore_case :
    (∀ (ext : String) (language : Language),
      (Language.ofExtension? ext = some language ↔ asciiLower ext ∈ language.extensions) ∧
        (Language.ofExtension? ext = some language → ∀ d ∈ ext.toList, d.toNat < 128)) ∧
      (∀ p q, asciiLower p = asciiLower q →
        (Path.extension? p).map asciiLower = (Path.extension? q).map asciiLower) ∧
      ∀ config : Config, config.LowerCaseKeys →
        (∀ path, config.languageFor? path = config.language.or
          ((Path.extension? path).bind fun ext =>
            (config.extensions.lookup (asciiLower ext)).or
              (Language.ofExtension? (asciiLower ext)))) ∧
          ∀ p q, (Path.extension? p).map asciiLower = (Path.extension? q).map asciiLower →
            config.languageFor? p = config.languageFor? q := by
  refine ⟨fun ext language => ⟨Language.ofExtension?_eq_some_iff, Language.ascii_of_ofExtension?⟩,
    fun p q hpq => ?_, fun config h => ?_⟩
  · rw [← Path.extension?_asciiLower, ← Path.extension?_asciiLower, hpq]
  · have hlanguage : ∀ path, config.languageFor? path = config.language.or
        ((Path.extension? path).bind fun ext =>
          (config.extensions.lookup (asciiLower ext)).or
            (Language.ofExtension? (asciiLower ext))) := fun path => by
      rw [languageFor?, funext (languageOfExtension?_eq h)]
    have hlowered : ∀ path, config.languageFor? path = config.language.or
        (((Path.extension? path).map asciiLower).bind fun ext =>
          (config.extensions.lookup ext).or (Language.ofExtension? ext)) := fun path => by
      rw [hlanguage, Option.bind_map]
      rfl
    refine ⟨hlanguage, fun p q hpq => ?_⟩
    rw [hlowered, hlowered, hpq]

/-- A configuration that has C++ headers end in `h`. -/
def cppHeaders : Config := { extensions := [("h", .cpp)] }

/-- It has them end in `H` as well, though that is C where there is no such table; the Kelvin sign
stands for no letter of an extension. -/
theorem extensions_ignore_case_headers :
    cppHeaders.LowerCaseKeys ∧ asciiLower "a.H" = asciiLower "a.h" ∧
      cppHeaders.languageFor? "a.H" = cppHeaders.languageFor? "a.h" ∧
      cppHeaders.languageFor? "a.H" = some .cpp ∧ Language.ofExtension? "H" = some .c ∧
      Language.ofExtension? "\u212A" = none := by
  have hkeys : cppHeaders.LowerCaseKeys := by
    intro entry hentry
    rw [List.mem_singleton.1 hentry]
    simp
  have hpaths : asciiLower "a.H" = asciiLower "a.h" := by decide +kernel
  obtain ⟨hknown, hcase, htable⟩ := extensions_ignore_case
  obtain ⟨hlanguage, hsame⟩ := htable cppHeaders hkeys
  refine ⟨hkeys, hpaths, hsame _ _ (hcase _ _ hpaths), ?_, (hknown "H" .c).1.2 (by decide +kernel),
    ?_⟩
  · rw [hlanguage]
    decide +kernel
  · refine Option.eq_none_iff_forall_ne_some.2 fun language h => ?_
    have hascii : ('\u212A').toNat < 128 := (hknown _ language).2 h _ (by simp)
    exact absurd hascii (by decide)

end Config

end TypeUses
