import Script.Proofs.Token.Following
import Script.Proofs.Tree.Relocation

/-!
# Lexing two texts as one

No lexeme that is found in a text is prolonged by a line feed behind the text. So the tokens of two
texts with a line feed between them are the tokens of the first text up to the mark at its end, and
then those of the second text, whose lines are counted on from the first.

The same holds of a fault in the second text. It is found where it is, and its line is counted on.

## Main definitions

* `Relocation.down` : tokens some lines further down.
* `LexFault.down` : a fault some lines further down.

## Main results

* `Lexeme.scan_append_feed` : a lexeme does not depend on what stands behind a later line feed.
* `lex_append_feed_eq` : lexing two texts with a line feed between them.
-/

namespace Script

/-- The lexeme at the front of a text is the same if a line feed and more follow the text. -/
theorem Lexeme.scan_append_feed {c : Char} {rest : List Char} {l : Lexeme}
    (h : scan c rest = .ok l) (more : List Char) : scan c (rest ++ '\n' :: more) = .ok l := by
  obtain ⟨text, after, hl, rfl⟩ := exists_append_of_scan h
  rw [List.append_assoc]
  exact scan_of_mayPrecede h hl (.append_feed l after more)

/-! ### Counting on -/

/-- The position some lines further down. -/
def Position.down (lines : Nat) (p : Position) : Position :=
  ⟨p.line + lines, p.column⟩

theorem Position.past_down (lines : Nat) (p : Position) (text : List Char) :
    (p.down lines).past text = (p.past text).down lines := by
  induction text generalizing p with
  | nil => rfl
  | cons c text ih =>
    have hnext : (p.down lines).next c = (p.next c).down lines := by
      simp only [Position.next, Position.down]
      split
      · rw [Nat.add_right_comm]
      · rfl
    rw [Position.past_cons, hnext, ih, Position.past_cons]

/-- Moves all tokens some lines down. -/
def Relocation.down (lines : Nat) : Relocation :=
  ⟨fun token => token.line + lines, Token.column⟩

theorem Token.ending_down (lines : Nat) (stop : Position) (kind : Kind) (text : List Char)
    (literal : Constant) :
    Token.ending (stop.down lines) kind text literal =
      Relocation.down lines (Token.ending stop kind text literal) := by
  simp only [Token.ending, Relocation.apply, Relocation.down, Position.down, Int.natCast_add]

theorem Lexeme.token?_down (lines : Nat) (l : Lexeme) (stop : Position) :
    l.token? (stop.down lines) = (l.token? stop).map (Relocation.down lines) := by
  rw [Lexeme.token?, Lexeme.token?, Option.map_map]
  simp only [Token.ending_down]
  rfl

/-- The same fault some lines further down. -/
def LexFault.down (lines : Nat) (f : LexFault) : LexFault :=
  { f with position := f.position.down lines }

/-- A text further down has the same tokens or the same fault further down. -/
theorem lexFrom_down (lines : Nat) (start : Position) (text : List Char) :
    lexFrom (start.down lines) text =
      ((lexFrom start text).map (List.map (Relocation.down lines))).mapError
        (LexFault.down lines) := by
  fun_induction lexFrom start text with
  | case1 start =>
    rw [lexFrom, Token.ending_down]
    rfl
  | case2 start c rest fault hscan =>
    rw [lexFrom_cons_error hscan, Position.past_down]
    rfl
  | case3 start c rest l hscan stop fault hrest =>
    rename_i ih
    rw [hrest, ← Position.past_down] at ih
    rw [lexFrom_cons_ok hscan, ih]
    rfl
  | case4 start c rest l hscan stop tokens hrest =>
    rename_i ih
    rw [hrest, ← Position.past_down] at ih
    rw [lexFrom_cons_ok hscan, ih]
    refine congrArg Except.ok ?_
    rw [Position.past_down, Lexeme.token?_down, Option.toList_map, List.map_append]

/-! ### Two texts -/

theorem lexFrom_ne_nil {start : Position} {text : List Char} {tokens : List Token}
    (h : lexFrom start text = .ok tokens) : tokens ≠ [] := by
  fun_induction lexFrom start text generalizing tokens with
  | case1 start =>
    cases h
    exact List.cons_ne_nil _ _
  | case2 => cases h
  | case3 => cases h
  | case4 start c rest l hscan stop tokens' hlex =>
    rename_i ih
    cases h
    exact List.append_ne_nil_of_right_ne_nil _ (ih hlex)

open Lexeme in
/-- Lexing a text, a line feed, and a text behind it. -/
theorem lexFrom_append_feed {start : Position} {text : List Char} {tokens : List Token}
    (h : lexFrom start text = .ok tokens) (more : List Char) :
    lexFrom start (text ++ '\n' :: more) =
      (lexFrom (start.past (text ++ ['\n'])) more).map (tokens.dropLast ++ ·) := by
  fun_induction lexFrom start text generalizing tokens with
  | case1 start =>
    cases h
    have hfeed : scan '\n' more = .ok ⟨['\n'], none⟩ := scan_of_mem_spaces (by decide)
    rw [List.nil_append, lexFrom_cons_ok hfeed]
    simp only [List.length_singleton, List.drop_one, List.tail_cons, List.nil_append]
    cases lexFrom (start.past ['\n']) more <;> rfl
  | case2 => cases h
  | case3 => cases h
  | case4 start c rest l hscan stop tokens' hlex =>
    rename_i ih
    cases h
    obtain ⟨after, htext⟩ := (isLexeme_of_scan hscan).2
    have hdrop : (c :: rest).drop l.text.length = after := by rw [← htext, List.drop_left]
    have hdrop' : (c :: (rest ++ '\n' :: more)).drop l.text.length = after ++ '\n' :: more := by
      rw [← List.cons_append, ← htext, List.append_assoc, List.drop_left]
    have hpast : start.past (c :: rest ++ ['\n']) = stop.past (after ++ ['\n']) := by
      rw [← htext, List.append_assoc, Position.past_append]
    rw [hdrop] at ih hlex
    rw [hpast, List.cons_append, lexFrom_cons_ok (scan_append_feed hscan more), hdrop', ih hlex,
      List.dropLast_append_of_ne_nil (lexFrom_ne_nil hlex)]
    cases lexFrom (stop.past (after ++ ['\n'])) more with
    | error fault => rfl
    | ok others => exact congrArg Except.ok (List.append_assoc ..).symm

/-- Lexing two source texts with a line feed between them gives the tokens of the first one, up to
the mark at its end, and then what lexing the second one gives, moved down by the lines of the
first. -/
theorem lex_append_feed_eq {source : String} {tokens : List Token} (h : lex source = .ok tokens)
    (more : String) :
    lex (source ++ "\n" ++ more) =
      (((lex more).map (List.map (Relocation.down (1 + source.toList.count '\n')))).mapError
        (LexFault.down (1 + source.toList.count '\n'))).map (tokens.dropLast ++ ·) := by
  have hpast : Position.start.past (source.toList ++ ['\n']) =
      Position.start.down (1 + source.toList.count '\n') := by
    rw [Position.past_start]
    simp [Position.down, Position.start]
    omega
  have hsplit : (source ++ "\n" ++ more).toList = source.toList ++ '\n' :: more.toList := by
    rw [String.toList_append, String.toList_append, List.append_assoc]
    rfl
  rw [lex, hsplit, lexFrom_append_feed h, hpast, lexFrom_down, lex]

/-- The tokens of two source texts with a line feed between them are the tokens of the first one, up
to the mark at its end, and those of the second one, moved down by the lines of the first. -/
theorem lex_append_feed {source more : String} {tokens others : List Token}
    (h : lex source = .ok tokens) (hmore : lex more = .ok others) :
    lex (source ++ "\n" ++ more) =
      .ok (tokens.dropLast ++ others.map (Relocation.down (1 + source.toList.count '\n'))) := by
  rw [lex_append_feed_eq h, hmore]
  rfl

end Script
