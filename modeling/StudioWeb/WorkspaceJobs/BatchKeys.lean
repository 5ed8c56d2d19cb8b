import StudioWeb.WorkspaceJobs.SanitizeString

/-!
# Texts the journal keeps as they are

`enqueueBatch` derives the key of each item as a SHA-256 digest in hexadecimal.
No pattern of `sanitizeString` has a match in such a text, so the journal files
the item under the key it is looked up by.

Every replacement leaves an opening bracket behind.  A sanitized text without
one is therefore the text that was given: no other text is filed under a digest.
-/

namespace StudioWeb
namespace WorkspaceJobs

open List

section Unmatched

variable {find : Option Char → List Char → Option Found}

theorem replaceIn_eq_self {p : Char → Prop}
    (hfind : ∀ before text, (∀ c ∈ text, p c) → find before text = none) {text : List Char}
    (htext : ∀ c ∈ text, p c) : replaceIn find text = text := by
  have hall : ∀ fuel before text, (∀ c ∈ text, p c) → replaceAll find fuel before text = text := by
    intro fuel
    induction fuel with
    | zero =>
      intro before text _
      rfl
    | succ _ ih =>
      intro before text htext
      cases text with
      | nil => rfl
      | cons c text =>
        rw [replaceAll, hfind before (c :: text) htext]
        have htail : ∀ d ∈ text, p d := fun d hd =>
          htext d (mem_cons_of_mem c hd)
        exact congrArg (c :: ·) (ih (some c) text htail)
  exact hall _ _ text htext

/-- A text without the mark every replacement leaves is the text that was
given. -/
theorem eq_of_replaceIn {mark : Char} (hfind : ∀ before text found, find before text = some found →
      mark ∈ found.replacement)
    {text : List Char} (h : mark ∉ replaceIn find text) : replaceIn find text = text := by
  have hall : ∀ fuel before text, mark ∉ replaceAll find fuel before text →
      replaceAll find fuel before text = text := by
    intro fuel
    induction fuel with
    | zero =>
      intro before text _
      rfl
    | succ fuel ih =>
      intro before text h
      cases text with
      | nil => rfl
      | cons c text =>
        rw [replaceAll] at h ⊢
        cases hfound : find before (c :: text) with
        | some found =>
          rw [hfound] at h
          have hmark := hfind before (c :: text) found hfound
          exact absurd (mem_append_left _ hmark) h
        | none =>
          rw [hfound] at h
          have htail : mark ∉ replaceAll find fuel (some c) text := fun hm =>
            h (mem_cons_of_mem c hm)
          exact congrArg (c :: ·) (ih (some c) text htail)
  exact hall _ _ text h

end Unmatched

/-- A digit of `digest('hex')`. -/
def isHexDigit (c : Char) : Bool := "0123456789abcdef".toList.contains c

theorem toLower_of_isHexDigit {c : Char} (h : isHexDigit c = true) : c.toLower = c := by
  have hmem : c ∈ "0123456789abcdef".toList := by
    simpa [isHexDigit] using h
  have hall : "0123456789abcdef".toList.all (fun d => d.toLower == d) = true := by
    decide
  exact eq_of_beq (all_eq_true.mp hall c hmem)

theorem isHexDigit_of_stripWord {word text : List Char} {found : List Char × List Char}
    (htext : ∀ c ∈ text, isHexDigit c = true) (h : stripWord word text = some found) :
    ∀ c ∈ word, isHexDigit c = true := by
  induction word generalizing text found with
  | nil =>
    intro c hc
    cases hc
  | cons _ _ ih =>
    cases text with
    | nil =>
      cases h
    | cons c =>
      rw [stripWord] at h
      split_ifs at h with hw
      obtain ⟨rest, hrest, _⟩ := Option.map_eq_some_iff.mp h
      have hc := htext c mem_cons_self
      have hword := ih (fun d hd => htext d (mem_cons_of_mem c hd)) hrest
      intro d hd
      rcases mem_cons.mp hd with rfl | hd
      · rw [← hw, toLower_of_isHexDigit hc]
        exact hc
      · exact hword d hd

theorem stripWord_eq_none {word text : List Char} (hword : word.all isHexDigit = false)
    (htext : ∀ c ∈ text, isHexDigit c = true) : stripWord word text = none := by
  cases h : stripWord word text with
  | none => rfl
  | some => simp [all_eq_true.mpr (isHexDigit_of_stripWord htext h)] at hword

theorem stripOneOf_eq_none {words : List (List Char)} {text : List Char}
    (hwords : ∀ word ∈ words, word.all isHexDigit = false)
    (htext : ∀ c ∈ text, isHexDigit c = true) : stripOneOf words text = none := by
  induction words with
  | nil => rfl
  | cons word _ ih =>
    have hword := stripWord_eq_none (hwords word mem_cons_self) htext
    rw [stripOneOf, hword]
    exact ih fun other hother => hwords other (mem_cons_of_mem word hother)

section

variable (before : Option Char) (text : List Char) (htext : ∀ c ∈ text, isHexDigit c = true)
include htext

theorem findGithubToken_hex : findGithubToken before text = none := by
  unfold findGithubToken
  split
  · next _ _ _ _ _ =>
    refine if_neg ?_
    rintro ⟨_, rfl, _⟩
    exact absurd (htext 'g' mem_cons_self) (by decide)
  · rfl

theorem findBearer_hex : findBearer before text = none := by
  have hword := @stripWord_eq_none "bearer".toList text (by decide) htext
  unfold findBearer
  rw [hword]
  exact ite_self none

theorem findSecret_hex : findSecret before text = none := by
  have hwords := @stripOneOf_eq_none secretWords text (by decide) htext
  unfold findSecret
  rw [hwords]
  exact ite_self none

theorem findCredentials_hex : findCredentials before text = none := by
  have hwords := @stripOneOf_eq_none ["https://".toList, "http://".toList] text (by decide) htext
  unfold findCredentials
  rw [hwords]
  exact ite_self none

end

theorem sanitizeString_hex {value : String} (h : ∀ c ∈ value.toList, isHexDigit c = true) :
    sanitizeString value = value := by
  rw [sanitizeString, replaceIn_eq_self findGithubToken_hex h,
    replaceIn_eq_self findBearer_hex h, replaceIn_eq_self findSecret_hex h,
    replaceIn_eq_self findCredentials_hex h]
  exact String.ofList_toList

variable (before : Option Char) (text : List Char) (found : Found)

theorem findGithubToken_marks
    (h : findGithubToken before text = some found) : '[' ∈ found.replacement := by
  unfold findGithubToken at h
  split at h
  · next _ _ _ _ _ =>
    split_ifs at h with hc
    obtain ⟨p, _, hp⟩ := Option.map_eq_some_iff.mp h
    have hmark : '[' ∈ redactedToken := by
      decide
    rw [← hp]
    exact hmark
  · cases h

theorem findBearer_marks (h : findBearer before text = some found) : '[' ∈ found.replacement := by
  unfold findBearer at h
  split_ifs at h
  split at h
  · cases h
  · split_ifs at h
    split at h
    · cases h
    · cases h
      have hmark : '[' ∈ redactedToken := by
        decide
      exact mem_append_right _ (mem_cons_of_mem _ hmark)

theorem findSecret_marks (h : findSecret before text = some found) : '[' ∈ found.replacement := by
  unfold findSecret at h
  split_ifs at h
  split at h
  · cases h
  · split at h
    · cases h
    · split_ifs at h
      dsimp only at h
      split at h
      · cases h
      · cases h
        exact mem_append_right _ (by decide)

theorem findCredentials_marks
    (h : findCredentials before text = some found) : '[' ∈ found.replacement := by
  unfold findCredentials at h
  split_ifs at h
  split at h
  · split_ifs at h
    obtain ⟨rest, _, rfl⟩ := Option.map_eq_some_iff.mp h
    have hmark : '[' ∈ "https://[redacted]@".toList := by
      decide
    exact hmark
  · cases h

theorem sanitizeString_eq_self {value : String} (h : '[' ∉ (sanitizeString value).toList) :
    sanitizeString value = value := by
  have hlast : '[' ∉ replaceIn findCredentials (replaceIn findSecret (replaceIn findBearer
        (replaceIn findGithubToken value.toList))) := by
    simpa [sanitizeString] using h
  have hcredentials := eq_of_replaceIn findCredentials_marks hlast
  rw [hcredentials] at hlast
  have hsecret := eq_of_replaceIn findSecret_marks hlast
  rw [hsecret] at hlast
  have hbearer := eq_of_replaceIn findBearer_marks hlast
  rw [hbearer] at hlast
  have htoken := eq_of_replaceIn findGithubToken_marks hlast
  rw [sanitizeString, hcredentials, hsecret, hbearer, htoken]
  exact String.ofList_toList

theorem eq_of_sanitizeString_hex {value key : String} (hkey : ∀ c ∈ key.toList, isHexDigit c = true)
    (h : sanitizeString value = key) : value = key := by
  have hbracket : '[' ∉ (sanitizeString value).toList := by
    rw [h]
    intro hmem
    exact absurd (hkey '[' hmem) (by decide)
  rw [← h]
  exact (sanitizeString_eq_self hbracket).symm

end WorkspaceJobs
end StudioWeb
