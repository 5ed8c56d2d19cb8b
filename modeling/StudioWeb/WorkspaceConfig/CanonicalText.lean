import Mathlib.Data.List.Forall2
import StudioWeb.Library.SubstringSearch
import StudioWeb.WorkspaceConfig.CanonicalLines

/-!
# The text of a canonical config

`renderCanonicalToml` joins its lines, folds runs of breaks and trims the end.  Where each line
is one line and ends in no space, what TOML reads of the text is what it reads of the lines.
-/

namespace StudioWeb
namespace WorkspaceConfig

open List
open JsonText (escapeChar renderString hexDigit)
open WorkspaceJobs (isJsSpace)
open Toml (Value Table plain significant Sections)

section Folding

theorem filter_foldBreaks (breaks : Nat) (text : List Char) :
    (foldBreaks breaks text).filter (fun c => c ≠ '\n') = text.filter fun c => c ≠ '\n' := by
  induction text generalizing breaks with
  | nil => rfl
  | cons c _ ih =>
    by_cases hc : c = '\n'
    · subst hc
      rw [foldBreaks, if_pos rfl]
      split
      · exact ih (breaks + 1)
      · exact ih breaks
    · rw [foldBreaks, if_neg hc, filter_cons_of_pos (by simpa using hc),
        filter_cons_of_pos (by simpa using hc), ih 0]

variable {text : List Char}

/-- Folding leaves the lines with something on them, and the first line where it begins a
text. -/
theorem significant_foldBreaks (breaks : Nat) (htext : ∀ c ∈ text, c ≠ '\r') :
    significant (Toml.lines (foldBreaks breaks text)) = significant (Toml.lines text) ∧
      (breaks < 2 → (Toml.lines (foldBreaks breaks text)).headD [] = (Toml.lines text).headD [] ∧
        significant (Toml.lines (foldBreaks breaks text)).tail =
          significant (Toml.lines text).tail) := by
  induction text generalizing breaks with
  | nil => exact ⟨rfl, fun _ => ⟨rfl, rfl⟩⟩
  | cons c _ ih =>
    have hmore := fun n => ih n fun d hd => htext d (mem_cons_of_mem c hd)
    have hreturn := htext c mem_cons_self
    by_cases hc : c = '\n'
    · subst hc
      rw [foldBreaks, if_pos rfl]
      split
      · exact ⟨(hmore (breaks + 1)).1, fun _ => ⟨rfl, (hmore (breaks + 1)).1⟩⟩
      · next hmany => exact ⟨(hmore breaks).1, fun hfew => absurd hfew hmany⟩
    · obtain ⟨hhead, htail⟩ := (hmore 0).2 (by decide)
      rw [foldBreaks, if_neg hc, Toml.lines_cons _ hc hreturn, Toml.lines_cons _ hc hreturn, hhead]
      refine ⟨?_, fun _ => ⟨rfl, htail⟩⟩
      unfold significant at htail ⊢
      rw [filter_cons_of_pos (by simp), filter_cons_of_pos (by simp), htail]

theorem dropWhile_space
    (h : ∀ c, (text.filter fun c => c ≠ '\n').head? = some c → isJsSpace c = false) :
    text.dropWhile isJsSpace = text.dropWhile fun c => c = '\n' := by
  induction text with
  | nil => rfl
  | cons c _ ih =>
    by_cases hc : c = '\n'
    · subst hc
      exact ih h
    · rw [filter_cons_of_pos (by simpa using hc)] at h
      rw [dropWhile_cons_of_neg (by rw [h c rfl]; exact Bool.false_ne_true),
        dropWhile_cons_of_neg (by simpa using hc)]

theorem trimEnd_breaks
    (h : ∀ c, (text.filter fun c => c ≠ '\n').getLast? = some c → isJsSpace c = false) :
    ∃ breaks, trimEnd text ++ breaks = text ∧ ∀ c ∈ breaks, c = '\n' := by
  have hdrop : text.reverse.dropWhile isJsSpace = text.reverse.dropWhile fun c => c = '\n' := by
    refine dropWhile_space ?_
    rw [filter_reverse, head?_reverse]
    exact h
  refine ⟨(text.reverse.takeWhile fun c => c = '\n').reverse, ?_, ?_⟩
  · unfold trimEnd
    rw [hdrop, ← reverse_append, takeWhile_append_dropWhile, reverse_reverse]
  · intro c hc
    exact of_decide_eq_true (all_eq_true.mp all_takeWhile c (mem_reverse.mp hc))

theorem mem_foldBreaks {c : Char} {breaks : Nat} (h : c ∈ foldBreaks breaks text) : c ∈ text := by
  induction text generalizing breaks with
  | nil => exact h
  | cons d _ ih =>
    rw [foldBreaks] at h
    split at h
    · split at h
      · rcases mem_cons.mp h with rfl | hmore
        · exact mem_cons_self
        · exact mem_cons_of_mem d (ih hmore)
      · exact mem_cons_of_mem d (ih h)
    · rcases mem_cons.mp h with rfl | hmore
      · exact mem_cons_self
      · exact mem_cons_of_mem d (ih hmore)

theorem filter_intercalate {ls : List (List Char)}
    (hclean : ∀ l ∈ ls, ∀ c ∈ l, c ≠ '\n' ∧ c ≠ '\r') :
    (['\n'].intercalate ls).filter (fun c => c ≠ '\n') = ls.flatten ∧
      ∀ c ∈ ['\n'].intercalate ls, c ≠ '\r' := by
  induction ls with
  | nil => exact ⟨rfl, nofun⟩
  | cons l ls ih =>
    have hl := hclean l mem_cons_self
    have hkeep : l.filter (fun c => c ≠ '\n') = l :=
      filter_eq_self.mpr fun c hc => decide_eq_true (hl c hc).1
    obtain ⟨hfilter, hreturn⟩ := ih fun m hm => hclean m (mem_cons_of_mem l hm)
    cases ls with
    | nil =>
      rw [intercalate_singleton, hkeep, flatten_singleton]
      exact ⟨rfl, fun c hc => (hl c hc).2⟩
    | cons =>
      rw [intercalate_cons_cons, filter_append, filter_append, hfilter, hkeep]
      refine ⟨by simp, ?_⟩
      intro c hc
      rcases mem_append.mp hc with hline | hback
      · rcases mem_append.mp hline with hfront | hbreak
        · exact (hl c hfront).2
        · rw [mem_singleton.mp hbreak]
          decide
      · exact hreturn c hback

/-- What `renderCanonicalToml` makes of its lines keeps those with something on them. -/
theorem significant_folded {ls : List (List Char)} (hne : ls ≠ [])
    (hclean : ∀ l ∈ ls, ∀ c ∈ l, c ≠ '\n' ∧ c ≠ '\r')
    (hended : ∀ l ∈ ls, ∀ c, l.getLast? = some c → isJsSpace c = false) :
    significant (Toml.lines (trimEnd (foldBreaks 0 (['\n'].intercalate ls)) ++ ['\n'])) =
      significant ls := by
  obtain ⟨hfilter, hreturn⟩ := filter_intercalate hclean
  have hlast : ∀ c, ls.flatten.getLast? = some c → isJsSpace c = false := by
    intro c hc
    rw [getLast?_flatten] at hc
    obtain ⟨l, hl, hend⟩ := exists_of_findSome?_eq_some hc
    exact hended l (mem_reverse.mp hl) c hend
  obtain ⟨breaks, hall, hbreaks⟩ := @trimEnd_breaks (foldBreaks 0 (['\n'].intercalate ls)) (by
    rw [filter_foldBreaks, hfilter]
    exact hlast)
  have hfolded := (significant_foldBreaks 0 hreturn).1
  have hfront : ∀ c ∈ trimEnd (foldBreaks 0 (['\n'].intercalate ls)), c ≠ '\r' := by
    intro c hc
    have hin := mem_append_left breaks hc
    rw [hall] at hin
    exact hreturn c (mem_foldBreaks hin)
  have hsame := Toml.significant_breaks breaks hfront hbreaks
  rw [Toml.significant_breaks ['\n'] hfront (by simp), ← hsame, hall, hfolded,
    Toml.lines_intercalate hne hclean]

end Folding

section Reads

structure Reads (text : List Char) (line : Toml.Line) : Prop where
  oneLine : ∀ c ∈ text, c ≠ '\n' ∧ c ≠ '\r'
  ended : ∀ c, text.getLast? = some c → isJsSpace c = false
  read : Toml.readLine text = some line

theorem reads_blank : Reads [] .blank := ⟨nofun, nofun, rfl⟩

theorem oneLine_escapeChar {c d : Char} (h : c ∈ escapeChar d) : c ≠ '\n' ∧ c ≠ '\r' := by
  unfold escapeChar at h
  cases hfind : JsonText.escapes.find? (fun e => e.2 = d) with
  | some e =>
    have hmem : e ∈ JsonText.escapes := mem_of_find?_eq_some hfind
    rw [hfind] at h
    simp only [JsonText.escapes, mem_cons, not_mem_nil, or_false] at hmem h
    rcases hmem with rfl | rfl | rfl | rfl | rfl | rfl | rfl <;>
      rcases h with rfl | rfl <;> decide
  | none =>
    have hplain : ∀ e ∈ JsonText.escapes, e.2 ≠ d := by
      intro e he heq
      have hcond := find?_eq_none.mp hfind e he
      exact hcond (decide_eq_true heq)
    rw [hfind] at h
    dsimp only at h
    split at h
    · next hcontrol =>
      have hdigits : ∀ n < 32, ['\x5c', 'u', '0', '0', hexDigit (n / 16),
          hexDigit (n % 16)].all (fun c => decide (c ≠ '\n' ∧ c ≠ '\r')) = true := by
        decide +kernel
      exact forall_mem_of_all (hdigits d.toNat hcontrol) c h
    · rw [mem_singleton.mp h]
      exact ⟨(hplain ('n', '\n') (by decide)).symm, (hplain ('r', '\r') (by decide)).symm⟩

variable {c : Char}

theorem oneLine_quote {s : String} (h : c ∈ quote s) : c ≠ '\n' ∧ c ≠ '\r' := by
  unfold quote renderString at h
  simp only [mem_cons, mem_append, mem_flatMap, not_mem_nil, or_false] at h
  rcases h with rfl | ⟨d, -, hd⟩ | rfl
  · decide
  · exact oneLine_escapeChar hd
  · decide

theorem oneLine_bare {k : String} (hk : isBareKey k = true) (h : c ∈ k.toList) :
    c ≠ '\n' ∧ c ≠ '\r' := by
  obtain ⟨-, hall⟩ := Bool.and_eq_true_iff.mp hk
  obtain ⟨-, -, -, -, -, -, -, hbreak, hreturn⟩ := plain_of_bare (all_eq_true.mp hall c h)
  exact ⟨hbreak, hreturn⟩

theorem reads_ended {text tail : List Char} {front : List Char} {line : Toml.Line} (hne : tail ≠ [])
    (hfront : ∀ c ∈ front, c ≠ '\n' ∧ c ≠ '\r') (htail : ∀ c ∈ tail, c ≠ '\n' ∧ c ≠ '\r')
    (hended : ∀ c, tail.getLast? = some c → isJsSpace c = false) (htext : front ++ tail = text)
    (hread : Toml.readLine text = some line) : Reads text line := by
  subst htext
  refine ⟨?_, ?_, hread⟩
  · intro c hc
    rcases mem_append.mp hc with hin | hin
    · exact hfront c hin
    · exact htail c hin
  · intro c hc
    rw [getLast?_append_of_ne_nil _ hne] at hc
    exact hended c hc

theorem ended_quote {s : String} (h : (quote s).getLast? = some c) :
    isJsSpace c = false := by
  have hlast : (quote s).getLast? = some '\x22' := by
    unfold quote renderString
    rw [getLast?_cons, getLast?_concat]
    rfl
  rw [Option.some.inj (h.symm.trans hlast)]
  decide

theorem oneLine_pair {written : List Char}
    (hwritten : ∀ c ∈ written, c ≠ '\n' ∧ c ≠ '\r') (h : c ∈ written ++ " = ".toList) :
    c ≠ '\n' ∧ c ≠ '\r' := by
  have hequals : ∀ c ∈ " = ".toList, c ≠ '\n' ∧ c ≠ '\r' := forall_mem_of_all (by decide)
  rcases mem_append.mp h with hin | hin
  · exact hwritten c hin
  · exact hequals c hin

theorem reads_text {k s : String} (hk : isBareKey k = true) (hs : isTomlText s = true) :
    Reads (k.toList ++ " = ".toList ++ quote s) (.pair ([k], .str s)) :=
  reads_ended (cons_ne_nil _ _) (fun _ => oneLine_pair fun _ => oneLine_bare hk)
    (fun _ => oneLine_quote) (fun _ => ended_quote) rfl (readLine_text hk hs)

theorem reads_bool {k : String} (hk : isBareKey k = true) (b : Bool) :
    Reads (k.toList ++ " = ".toList ++ (if b then "true" else "false").toList)
      (.pair ([k], .bool b)) := by
  refine reads_ended ?_ (fun _ => oneLine_pair fun _ => oneLine_bare hk) ?_ ?_ rfl
    (readLine_bool hk b)
  · cases b <;> decide
  · cases b <;> exact forall_mem_of_all (by decide)
  · cases b <;> simp <;> decide

theorem reads_host {h s : String} (hh : isHostKey h = true) (hs : isTomlText s = true) :
    Reads (hostLine (h, s)) (.pair ([h], .str s)) := by
  refine reads_ended (cons_ne_nil _ _) ?_ (fun _ => oneLine_quote)
    (fun _ => ended_quote) rfl (readLine_host hh hs)
  refine fun _ => oneLine_pair fun c hc => ?_
  unfold quoteKey at hc
  rcases Bool.or_eq_true_iff.mp hh with hbare | hquoted
  · split at hc
    · exact oneLine_bare hbare hc
    · exact oneLine_quote hc
  · obtain ⟨hnone, -⟩ := Bool.and_eq_true_iff.mp hquoted
    have hnot : ¬ h.toList.any Toml.isBareChar = true := by
      simpa using hnone
    rw [if_neg hnot] at hc
    exact oneLine_quote hc

theorem mem_intercalate {separator : List Char} {ls : List (List Char)}
    (h : c ∈ separator.intercalate ls) : c ∈ separator ∨ ∃ l ∈ ls, c ∈ l := by
  induction ls with
  | nil => exact absurd h not_mem_nil
  | cons l ls ih =>
    cases ls with
    | nil =>
      rw [intercalate_singleton] at h
      exact .inr ⟨l, mem_cons_self, h⟩
    | cons =>
      rw [intercalate_cons_cons] at h
      rcases mem_append.mp h with hfront | hback
      · rcases mem_append.mp hfront with hline | hseparator
        · exact .inr ⟨l, mem_cons_self, hline⟩
        · exact .inl hseparator
      · rcases ih hback with hseparator | ⟨n, hn, hc⟩
        · exact .inl hseparator
        · exact .inr ⟨n, mem_cons_of_mem l hn, hc⟩

theorem reads_languages {l : String} {ls : List String} (hls : ∀ s ∈ l :: ls, isTomlText s = true) :
    Reads ("allowed_content_languages = [".toList ++
        ", ".toList.intercalate ((l :: ls).map quote) ++ [']'])
      (.pair (["allowed_content_languages"], .arr ((l :: ls).map .str))) := by
  refine reads_ended (cons_ne_nil ']' []) ?_ (forall_mem_of_all (by decide)) (by simp; decide) rfl
    (readLine_languages hls)
  have hopened : ∀ c ∈ "allowed_content_languages = [".toList, c ≠ '\n' ∧ c ≠ '\r' :=
    forall_mem_of_all (by decide)
  have hcomma : ∀ c ∈ ", ".toList, c ≠ '\n' ∧ c ≠ '\r' := forall_mem_of_all (by decide)
  intro c hc
  rcases mem_append.mp hc with hin | hin
  · exact hopened c hin
  · rcases mem_intercalate hin with hseparator | ⟨written, hwritten, hin⟩
    · exact hcomma c hseparator
    · obtain ⟨s, -, rfl⟩ := mem_map.mp hwritten
      exact oneLine_quote hin

theorem reads_source {id : String} (hid : isBareKey id = true) :
    Reads ("[sources.".toList ++ id.toList ++ [']']) (.header ["sources", id]) := by
  refine reads_ended (cons_ne_nil ']' []) ?_ (forall_mem_of_all (by decide)) (by simp; decide) rfl
    (readLine_source hid)
  have hopened : ∀ c ∈ "[sources.".toList, c ≠ '\n' ∧ c ≠ '\r' := forall_mem_of_all (by decide)
  intro c hc
  rcases mem_append.mp hc with hin | hin
  · exact hopened c hin
  · exact oneLine_bare hid hin

theorem exists_reads {texts : List (List Char)} {ls : List Toml.Line} {text : List Char}
    (h : List.Forall₂ Reads texts ls) (hmem : text ∈ texts) : ∃ line, Reads text line := by
  induction h with
  | nil => exact absurd hmem not_mem_nil
  | cons hfirst _ ih =>
    rcases mem_cons.mp hmem with rfl | hmore
    · exact ⟨_, hfirst⟩
    · exact ih hmore

theorem parse_folded {texts : List (List Char)} {ls : List Toml.Line} (hne : texts ≠ [])
    (h : List.Forall₂ Reads texts ls) :
    Toml.parse (trimEnd (foldBreaks 0 (['\n'].intercalate texts)) ++ ['\n']) =
      Toml.document ls := by
  have hclean : ∀ l ∈ texts, ∀ c ∈ l, c ≠ '\n' ∧ c ≠ '\r' := by
    intro l hl
    obtain ⟨line, hreads⟩ := exists_reads h hl
    exact hreads.oneLine
  have hended : ∀ l ∈ texts, ∀ c, l.getLast? = some c → isJsSpace c = false := by
    intro l hl
    obtain ⟨line, hreads⟩ := exists_reads h hl
    exact hreads.ended
  have hread : texts.mapM Toml.readLine = some ls := by
    clear hne hclean hended
    induction h with
    | nil => rfl
    | cons hfirst _ ih =>
      rw [mapM_cons, hfirst.read, ih]
      rfl
  exact Toml.parse_of_significant (significant_folded hne hclean hended) hread

end Reads

end WorkspaceConfig
end StudioWeb
