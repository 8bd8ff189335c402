import Mathlib
import TypeUses.Text.LowerCase

/-!
# Text — what the two ways to lower case have in common

A text has one lower-case form by the rules for all characters (`lower`) and one in which only the
letters `A` to `Z` change (`asciiLower`).

* `lower_of_ascii`: on a text of ASCII characters the two are the same.
* `lower_eq_iff`: a word of ASCII characters other than `k` is the one form of exactly those texts of
  which it is the other.

Outside of ASCII one character alone has an ASCII character for its form, the Kelvin sign, whose
form is `k` (`toNat_lowerChar`).  The dotted capital I does have an `i` in its form, but with a
combining dot behind it.
-/

namespace TypeUses.Text

variable {c : Char} {cs before after : List Char} {s word : String}

/-! ### ASCII letters -/

theorem asciiLower_ofList (cs : List Char) :
    asciiLower (String.ofList cs) = String.ofList (cs.map Char.toLower) := by
  rw [asciiLower, String.toList_ofList]

theorem toList_asciiLower (s : String) : (asciiLower s).toList = s.toList.map Char.toLower := by
  rw [asciiLower, String.toList_ofList]

theorem isUpper_iff : c.isUpper = true ↔ 0x41 ≤ c.toNat ∧ c.toNat ≤ 0x5A := by
  rw [Char.isUpper, decide_eq_true_iff, ge_iff_le, UInt32.le_iff_toNat_le, UInt32.le_iff_toNat_le]
  rfl

theorem toLower_of_not_ascii (h : 128 ≤ c.toNat) : c.toLower = c := by
  refine Char.toLower_eq_of_not_isUpper fun hupper => ?_
  have hbounds := isUpper_iff.1 hupper
  omega

/-- In ASCII the two lower cases agree. -/
theorem lowerChar_of_ascii (h : c.toNat < 128) : lowerChar c = c.toLower := by
  have hruns : caseRuns = ⟨0x41, 0x5A, 1, 0x61⟩ :: caseRuns.tail := rfl
  have others : ∀ run ∈ caseRuns.tail, 128 ≤ run.first := by decide +kernel
  have hnone : caseRuns.tail.find? (·.covers c.toNat) = none := by
    refine List.find?_eq_none.2 fun run hrun hcovers => ?_
    have hfirst := others run hrun
    simp only [CaseRun.covers, Bool.and_eq_true, decide_eq_true_eq] at hcovers
    omega
  have hcovers : (⟨0x41, 0x5A, 1, 0x61⟩ : CaseRun).covers c.toNat = c.isUpper := by
    rw [Bool.eq_iff_iff, isUpper_iff]
    simp [CaseRun.covers, Nat.mod_one]
  have hfind : caseRuns.find? (·.covers c.toNat) =
      if c.isUpper then some ⟨0x41, 0x5A, 1, 0x61⟩ else none := by
    rw [hruns, List.find?_cons, hcovers, hnone]
    cases c.isUpper <;> rfl
  rw [lowerChar, hfind]
  by_cases hupper : c.isUpper = true
  · have hform : (⟨0x41, 0x5A, 1, 0x61⟩ : CaseRun).form c.toNat = c.toNat + 32 := by
      have hbounds := isUpper_iff.1 hupper
      simp only [CaseRun.form]
      omega
    rw [if_pos hupper, Char.toLower_eq_of_isUpper hupper, ← hform]
  · rw [if_neg hupper, Char.toLower_eq_of_not_isUpper hupper]

/-- An ASCII character has one lower-case form, wherever it stands. -/
theorem lowerAt_of_ascii (h : c.toNat < 128) : lowerAt before c after = [c.toLower] := by
  have hsigma : c ≠ 'Σ' := fun he => absurd (he ▸ h) (by decide)
  have hdotted : c ≠ 'İ' := fun he => absurd (he ▸ h) (by decide)
  rw [lowerAt, if_neg hsigma, if_neg hdotted, lowerChar_of_ascii h]

theorem lowerFrom_of_ascii (h : ∀ c ∈ cs, c.toNat < 128) :
    lowerFrom before cs = cs.map Char.toLower := by
  induction cs generalizing before with
  | nil => rfl
  | cons c cs ih =>
      obtain ⟨hc, hcs⟩ := List.forall_mem_cons.1 h
      rw [lowerFrom, lowerAt_of_ascii hc, ih hcs]
      rfl

/-- **The two ways to lower case agree on ASCII.** -/
theorem lower_of_ascii (h : ∀ c ∈ s.toList, c.toNat < 128) : lower s = asciiLower s := by
  rw [lower, asciiLower, lowerFrom_of_ascii h]

/-! ### Other characters -/

/-- The lower-case form of a code point that a run covers is a character. -/
theorem isValidChar_form {run : CaseRun} (hrun : run ∈ caseRuns) {n : Nat}
    (hn : run.covers n = true) : (run.form n).isValidChar := by
  have table : ∀ run ∈ caseRuns, run.target + (run.last - run.first) < 0xD800 ∨
      0xDFFF < run.target ∧ run.target + (run.last - run.first) < 0x110000 := by
    decide +kernel
  have hbounds := table run hrun
  simp only [CaseRun.covers, Bool.and_eq_true, decide_eq_true_eq] at hn
  simp only [Nat.isValidChar, CaseRun.form]
  omega

/-- Of the other characters the Kelvin sign alone has an ASCII character for its form. -/
theorem toNat_lowerChar (h : 128 ≤ c.toNat) : 128 ≤ (lowerChar c).toNat ∨ lowerChar c = 'k' := by
  have table : ∀ run ∈ caseRuns,
      run.last < 128 ∨ 128 ≤ run.target ∨ run = ⟨0x212A, 0x212A, 1, 0x6B⟩ := by
    decide +kernel
  rw [lowerChar]
  cases hfind : caseRuns.find? (·.covers c.toNat) with
  | none => exact Or.inl h
  | some run =>
      have hrun := List.mem_of_find?_eq_some hfind
      have hcovers := List.find?_some hfind
      have hform : (Char.ofNat (run.form c.toNat)).toNat = run.form c.toNat := by
        rw [Char.toNat_ofNat, if_pos (isValidChar_form hrun hcovers)]
      simp only [CaseRun.covers, Bool.and_eq_true, decide_eq_true_eq] at hcovers
      rcases table run hrun with hlast | htarget | rfl
      · omega
      · exact Or.inl (by rw [hform, CaseRun.form]; omega)
      · have hkelvin : c.toNat = 0x212A := Nat.le_antisymm hcovers.1.2 hcovers.1.1
        exact Or.inr (by rw [hkelvin]; rfl)

/-- The form of such a character in its place is `k`, or not all ASCII. -/
theorem lowerAt_of_not_ascii (h : 128 ≤ c.toNat) :
    'k' ∈ lowerAt before c after ∨ ∃ d ∈ lowerAt before c after, 128 ≤ d.toNat := by
  rw [lowerAt]
  split
  · refine Or.inr ⟨_, List.mem_singleton_self _, ?_⟩
    split <;> decide
  · split
    · exact Or.inr ⟨'\u0307', by decide, by decide⟩
    · rcases toNat_lowerChar h with hle | hk
      · exact Or.inr ⟨_, List.mem_singleton_self _, hle⟩
      · exact Or.inl (List.mem_singleton.2 hk.symm)

/-- A text whose form is ASCII without `k` is ASCII. -/
theorem ascii_of_lowerFrom (h : ∀ d ∈ lowerFrom before cs, d.toNat < 128 ∧ d ≠ 'k') :
    ∀ c ∈ cs, c.toNat < 128 := by
  induction cs generalizing before with
  | nil => nofun
  | cons c cs ih =>
      rw [lowerFrom] at h
      refine List.forall_mem_cons.2 ⟨?_, ih fun d hd => h d (List.mem_append_right _ hd)⟩
      by_contra hc
      rcases lowerAt_of_not_ascii (Nat.le_of_not_lt hc) with hk | ⟨d, hd, hle⟩
      · exact (h _ (List.mem_append_left _ hk)).2 rfl
      · exact absurd (h d (List.mem_append_left _ hd)).1 (Nat.not_lt.2 hle)

/-! ### Words of ASCII characters -/

/-- A text whose lower case is an ASCII word without `k` is itself ASCII. -/
theorem ascii_of_lower_eq (hword : ∀ d ∈ word.toList, d.toNat < 128 ∧ d ≠ 'k')
    (h : lower s = word) : ∀ c ∈ s.toList, c.toNat < 128 := by
  have hform : word.toList = lowerFrom [] s.toList := by rw [← h, lower, String.toList_ofList]
  rw [hform] at hword
  exact ascii_of_lowerFrom hword

/-- A text whose ASCII lower case is an ASCII word is itself ASCII. -/
theorem ascii_of_asciiLower_eq (hword : ∀ d ∈ word.toList, d.toNat < 128)
    (h : asciiLower s = word) : ∀ c ∈ s.toList, c.toNat < 128 := by
  intro c hc
  by_contra hlt
  have hmem : c.toLower ∈ word.toList := by
    rw [← h, toList_asciiLower]
    exact List.mem_map_of_mem hc
  rw [toLower_of_not_ascii (Nat.le_of_not_lt hlt)] at hmem
  exact hlt (hword c hmem)

/-- **The two ways to lower case lead to a word from the same texts**, if the word is of ASCII
characters other than `k`. -/
theorem lower_eq_iff (hword : ∀ d ∈ word.toList, d.toNat < 128 ∧ d ≠ 'k') :
    lower s = word ↔ asciiLower s = word := by
  constructor
  · intro h
    rw [← lower_of_ascii (ascii_of_lower_eq hword h), h]
  · intro h
    rw [lower_of_ascii (ascii_of_asciiLower_eq (fun d hd => (hword d hd).1) h), h]

/-! ### Texts that `asciiLower` leaves as they are -/

theorem asciiLower_eq_self (h : ∀ c ∈ s.toList, c.isUpper = false) : asciiLower s = s := by
  have hmap : s.toList.map Char.toLower = s.toList.map id :=
    List.map_congr_left fun c hc => Char.toLower_eq_of_not_isUpper (by simp [h c hc])
  rw [asciiLower, hmap, List.map_id, String.ofList_toList]

theorem asciiLower_asciiLower (s : String) : asciiLower (asciiLower s) = asciiLower s := by
  refine asciiLower_eq_self fun c hc => ?_
  rw [toList_asciiLower] at hc
  obtain ⟨d, -, rfl⟩ := List.mem_map.1 hc
  exact Char.isUpper_toLower_eq_false d

/-- A character that is no letter stands for itself only. -/
theorem toLower_eq_iff {d : Char} (hd : d.isAlpha = false) : c.toLower = d ↔ c = d := by
  constructor
  · intro h
    have hc : c.isAlpha = false := by rw [← Char.isAlpha_toLower_eq_isAlpha, h, hd]
    rw [← h]
    refine (Char.toLower_eq_of_not_isUpper fun hupper => ?_).symm
    rw [Char.isAlpha, hupper] at hc
    cases hc
  · rintro rfl
    refine Char.toLower_eq_of_not_isUpper fun hupper => ?_
    rw [Char.isAlpha, hupper] at hd
    cases hd

theorem map_toLower_eq_iff {ds : List Char} (hd : ∀ d ∈ ds, d.isAlpha = false) :
    cs.map Char.toLower = ds ↔ cs = ds := by
  induction ds generalizing cs with
  | nil => exact List.map_eq_nil_iff
  | cons d ds ih =>
      obtain ⟨hd, hds⟩ := List.forall_mem_cons.1 hd
      cases cs with
      | nil => simp
      | cons c cs => rw [List.map_cons, List.cons.injEq, List.cons.injEq, toLower_eq_iff hd, ih hds]

/-- A word without letters is the form of itself only. -/
theorem asciiLower_eq_iff (hword : ∀ d ∈ word.toList, d.isAlpha = false) :
    asciiLower s = word ↔ s = word := by
  rw [← String.toList_inj, toList_asciiLower, map_toLower_eq_iff hword, String.toList_inj]

end TypeUses.Text
