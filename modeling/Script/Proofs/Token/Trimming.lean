import Script.Proofs.Token.Retyping

/-!
# Lexing a text without the blanks at its end

Cutting off the blanks at the end of a text takes nothing from its tokens, since none of them ends
with a blank. What it may take from is white space and a comment that goes to the end of its line. A
string literal and a comment between `/*` and `*/` keep their blanks, because they are closed behind
them.

This is so for all that counts as a blank, which is more than lexing takes for white space.

## Main results

* `lex_trimEnd` : the tokens of a text without the blanks at its end.
-/

namespace Script

open Lexeme Text

/-- Nothing is taken off an empty text. -/
theorem Munches.eq_nil {ls : List Lexeme} {after : List Char} (h : Munches [] ls after) :
    ls = [] := by
  generalize htext : [] = text at h
  cases h with
  | done => rfl
  | take hlongest =>
    exact absurd (List.append_eq_nil_iff.mp htext.symm).1 hlongest.isLexeme.text_ne_nil

/-- What is left of a lexeme at the end of a text is cut into lexemes that say the same. -/
theorem exists_munches_trimEnd {l : Lexeme} {rest : List Char}
    (hlongest : l.IsLongest (l.text ++ rest)) (hopens : ¬OpensComment (l.text ++ rest)) :
    ∃ pieces, Munches (trimEnd l.text) pieces [] ∧
      pieces.filterMap content? = l.content?.toList := by
  by_cases hsolid : EndsSolid l.text
  · have htrim : trimEnd l.text = l.text ++ [] := by
      rw [List.append_nil]
      exact hsolid.trimEnd_append []
    have hpiece : [l].filterMap content? = l.content?.toList := by
      cases hcontent : l.content? <;> simp [hcontent]
    have hmunches : Munches (l.text ++ []) [l] [] :=
      .take_of_mayPrecede hlongest hopens (.cut List.nil_prefix) (.done [])
    exact ⟨[l], htrim ▸ hmunches, hpiece⟩
  · have hlexeme := hlongest.isLexeme
    have hmeaning : l.meaning = none := by
      by_contra hmeaning
      exact hsolid (hlexeme.exists_solid hmeaning).2
    cases hlexeme with
    | space hspace =>
      simp only [List.mem_cons, List.not_mem_nil, or_false] at hspace
      rcases hspace with rfl | rfl | rfl | rfl <;> exact ⟨[], .done [], rfl⟩
    | @lineComment body hbody =>
      have htrim : trimEnd ('/' :: '/' :: body) = '/' :: '/' :: trimEnd body := by
        have hslash : isBlank '/' = false := by decide
        simp [trimEnd_cons, hslash]
      have hline : (trimEnd body).takeWhile (· ≠ '\n') = trimEnd body := by
        refine List.takeWhile_eq_self_iff.mpr fun c hc => decide_eq_true ?_
        rintro rfl
        exact hbody (mem_of_mem_trimEnd hc)
      refine ⟨[⟨'/' :: '/' :: trimEnd body, none⟩], ?_, rfl⟩
      dsimp only
      rw [htrim]
      exact .of_scan (by rw [scan_slash_slash, hline]) (List.append_nil _).symm (.done [])
    | blockComment =>
      exact absurd ⟨_, '/', (List.append_assoc ('/' :: '*' :: _) ['*'] ['/']).symm, by decide⟩
        hsolid
    | _ => cases hmeaning

/-- A text that is cut to its end is cut to its end without the blanks there. -/
theorem Munches.exists_trimEnd {text rest : List Char} {ls : List Lexeme}
    (h : Munches text ls rest) (hrest : rest = []) :
    ∃ ls', Munches (trimEnd text) ls' [] ∧ ls'.filterMap content? = ls.filterMap content? := by
  induction h with
  | done text =>
    subst hrest
    exact ⟨[], .done [], rfl⟩
  | @take l ls rest after hlongest hopens _ ih =>
    obtain ⟨ls', hmunches, hcontents⟩ := ih hrest
    have hcut : trimEnd rest <+: rest := List.rdropWhile_prefix ..
    rw [trimEnd_append]
    split
    · next hempty =>
      rw [List.isEmpty_iff.mp hempty] at hmunches
      obtain rfl := hmunches.eq_nil
      obtain ⟨pieces, hpieces, hpiece⟩ := exists_munches_trimEnd hlongest hopens
      refine ⟨pieces, hpieces, ?_⟩
      rw [hpiece, List.filterMap_cons, ← hcontents]
      cases l.content? <;> rfl
    · exact ⟨l :: ls', .take_of_mayPrecede hlongest hopens (.cut hcut) hmunches, by
        rw [List.filterMap_cons, List.filterMap_cons, hcontents]⟩

/-- A text without the blanks at its end has the same tokens, though the mark of the end may stand
elsewhere. -/
theorem lex_trimEnd {source : String} {tokens : List Token} (h : lex source = .ok tokens) :
    ∃ kept, lex (String.ofList (trimEnd source.toList)) = .ok kept ∧
      kept.map Token.content = tokens.map Token.content := by
  obtain ⟨ls, hmunches, rfl⟩ := munches_of_lex h
  obtain ⟨ls', hmunches', hcontents⟩ := hmunches.exists_trimEnd rfl
  rw [← String.toList_ofList (l := trimEnd source.toList)] at hmunches'
  refine ⟨_, lex_of_munches hmunches', ?_⟩
  rw [map_content_tokensBehind, map_content_tokensBehind, hcontents]

end Script
