import Script.Proofs.Token.Classes
import Script.Token.Scanner

/-!
# Reading a text character by character

A scanner that reads a text character by character gives the same tokens as `lex` does, and the same
faults. So whenever it reads a character, it has looked far enough to know that there is one: no
loop that reads as long as the next character passes a test goes on at the end of the text, where a
null character is seen.

Each step is compared with what is said of the text as a list: which part of it is taken, and what
that part means.

## Main results

* `Scan.run_advanceWhile` : a loop ends at the end of the text.
* `Scan.run_lexeme` : a lexeme is read as it is scanned.
* `Scan.lex_eq` : a text is read to its end, or up to a fault.
-/

namespace Script

/-! ### Steps -/

namespace Reader

variable {read rest : List Char} {c d : Char} {p : Position}

@[simp] theorem atEnd_nil : (⟨read, [], p⟩ : Reader).atEnd = true := rfl

@[simp] theorem atEnd_cons : (⟨read, c :: rest, p⟩ : Reader).atEnd = false := rfl

@[simp] theorem peek_nil : (⟨read, [], p⟩ : Reader).peek = '\x00' := rfl

@[simp] theorem peek_cons : (⟨read, c :: rest, p⟩ : Reader).peek = c := rfl

@[simp] theorem peekNext_cons_nil : (⟨read, [c], p⟩ : Reader).peekNext = '\x00' := rfl

@[simp] theorem peekNext_cons_cons : (⟨read, c :: d :: rest, p⟩ : Reader).peekNext = d := rfl

end Reader

namespace Scan

variable {α β : Type}

@[simp] theorem run_pure (a : α) (r : Reader) : (pure a : Scan α).run r = .ok (a, r) := rfl

@[simp] theorem run_bind (x : Scan α) (f : α → Scan β) (r : Reader) :
    (x >>= f).run r = match x.run r with
      | .error stop => .error stop
      | .ok (a, r) => (f a).run r := rfl

@[simp] theorem run_reader (r : Reader) : reader.run r = .ok (r, r) := rfl

@[simp] theorem run_start (r : Reader) : start.run r = .ok ((), { r with read := [] }) := rfl

@[simp] theorem run_fail (cause : Lexeme.Cause) (r : Reader) :
    (fail cause : Scan α).run r = .error (.fault ⟨cause, r.position⟩) := rfl

@[simp] theorem run_advance (read rest : List Char) (c : Char) (p : Position) :
    advance.run ⟨read, c :: rest, p⟩ = .ok (c, ⟨read ++ [c], rest, p.next c⟩) := rfl

/-! ### Loops -/

theorem run_loop {test : Reader → Bool} {x : Scan α} {hx : x.Advances} (r : Reader) :
    (loop test x hx).run r =
      if test r then
        match x.run r with
        | .error stop => .error stop
        | .ok (a, r') =>
          match (loop test x hx).run r' with
          | .error stop => .error stop
          | .ok (as, r'') => .ok (a :: as, r'')
      else .ok ([], r) := by
  have hloop (r : Reader) : (loop test x hx).run r = runLoop test x hx r := rfl
  rw [hloop, runLoop]
  split
  · split
    · next h => rw [h]
    · next h =>
      rw [h]
      rfl
  · rfl

/-- What comes behind a loop comes behind each of its rounds. -/
theorem run_loop_bind {test : Reader → Bool} {x : Scan α} {hx : x.Advances} (f : List α → Scan β)
    (r : Reader) :
    (loop test x hx >>= f).run r =
      if test r then
        match x.run r with
        | .error stop => .error stop
        | .ok (a, r') => (loop test x hx >>= fun as => f (a :: as)).run r'
      else (f []).run r := by
  rw [run_bind, run_loop]
  cases test r with
  | false => rfl
  | true =>
    cases x.run r with
    | error stop => rfl
    | ok result =>
      cases hloop : (loop test x hx).run result.2 <;> simp [hloop]

theorem drop_length_takeWhile (q : Char → Bool) (text : List Char) :
    text.drop (text.takeWhile q).length = text.dropWhile q := by
  have h : (text.takeWhile q ++ text.dropWhile q).drop (text.takeWhile q).length =
      text.dropWhile q :=
    List.drop_left
  rwa [List.takeWhile_append_dropWhile] at h

/-- Characters are read as long as each of them passes a test that the end does not pass. -/
theorem run_advanceWhile {test : Reader → Bool} {q : Char → Bool}
    (hcons : ∀ read c rest p, test ⟨read, c :: rest, p⟩ = q c)
    (hnil : ∀ read p, test ⟨read, [], p⟩ = false) (read text : List Char) (p : Position) :
    (advanceWhile test).run ⟨read, text, p⟩ =
      .ok (text.takeWhile q,
        ⟨read ++ text.takeWhile q, text.dropWhile q, p.past (text.takeWhile q)⟩) := by
  induction text generalizing read p with
  | nil =>
    rw [advanceWhile, run_loop, hnil]
    simp
  | cons c text ih =>
    rw [advanceWhile] at ih ⊢
    rw [run_loop, hcons]
    cases hc : q c with
    | true => simp [hc, ih]
    | false => simp [hc]

theorem run_advanceIf (expected : Char) (read text : List Char) (p : Position) :
    (advanceIf expected).run ⟨read, text, p⟩ =
      if text.head? = some expected then
        .ok (true, ⟨read ++ [expected], text.tail, p.next expected⟩)
      else .ok (false, ⟨read, text, p⟩) := by
  cases text with
  | nil => simp [advanceIf]
  | cons c text =>
    by_cases hc : c = expected <;> simp [advanceIf, hc]

/-! ### String literals -/

private theorem hexDigits_succ_cons (more : Nat) (c : Char) (text : List Char) :
    Lexeme.hexDigits (more + 1) (c :: text) =
      if (Lexeme.hexValue? c).isSome then c :: Lexeme.hexDigits more text else [] := by
  rw [Lexeme.hexDigits, List.take_succ_cons, List.takeWhile_cons]
  rfl

/-- The digits of an escape are read as far as they go. -/
theorem run_hexDigits (letter : Char) (count : Nat) (digits : List Char) (more : Nat)
    (read text : List Char) (p : Position) :
    (hexDigits letter count digits more).run ⟨read, text, p⟩ =
      let found := Lexeme.hexDigits more text
      if found.length < more then
        .error (.fault ⟨.missingDigit letter (digits ++ found) count, p.past found⟩)
      else .ok (digits ++ found, ⟨read ++ found, text.drop more, p.past found⟩) := by
  induction more generalizing digits read text p with
  | zero => simp [hexDigits, Lexeme.hexDigits]
  | succ more ih =>
    cases text with
    | nil => simp [hexDigits, Lexeme.hexDigits]
    | cons c text =>
      rw [hexDigits_succ_cons]
      cases hc : Lexeme.hexValue? c with
      | none => simp [hexDigits, hc]
      | some value => simp [hexDigits, hc, ih]

/-- What stands behind a backslash. -/
theorem run_escape (read text : List Char) (p : Position) :
    escape.run ⟨read, text, p⟩ =
      match Lexeme.escape text with
      | .error fault => .error (.fault ⟨fault.cause, p.past fault.read⟩)
      | .ok item => .ok (item.denotes,
          ⟨read ++ item.text.tail, text.drop (item.text.length - 1), p.past item.text.tail⟩) := by
  cases text with
  | nil => simp [escape, Lexeme.escape]
  | cons c text =>
    rw [Lexeme.escape]
    simp only [escape, run_bind, run_reader, Reader.atEnd_cons, Bool.false_eq_true, if_false,
      run_advance]
    cases Lexeme.simpleEscapes.lookup c with
    | some d => simp
    | none =>
      cases Lexeme.hexEscapes.lookup c with
      | none => simp
      | some count =>
        have hfound : (Lexeme.hexDigits count text).length ≤ count :=
          Nat.le_trans (List.takeWhile_prefix _).length_le (List.length_take_le _ _)
        simp only [run_bind, run_hexDigits, List.nil_append]
        by_cases hlength : (Lexeme.hexDigits count text).length < count
        · simp [hlength]
        · have hcount : (Lexeme.hexDigits count text).length = count :=
            Nat.le_antisymm hfound (Nat.not_lt.mp hlength)
          by_cases hcode : Lexeme.isSurrogate (Lexeme.hexNumber (Lexeme.hexDigits count text))
          · simp [hlength, hcode]
          · simp [hcode, hcount]

theorem run_item_backslash (read text : List Char) (p : Position) :
    item.run ⟨read, '\\' :: text, p⟩ = escape.run ⟨read ++ ['\\'], text, p.next '\\'⟩ := rfl

theorem run_item_of_ne {c : Char} (hc : c ≠ '\\') (read text : List Char) (p : Position) :
    item.run ⟨read, c :: text, p⟩ = .ok (c, ⟨read ++ [c], text, p.next c⟩) := by
  simp [item, hc]

/-- The rest of a string literal, of which some items were read that denote characters. -/
private def itemsAfter (denoted : List Char) : Scan String := do
  closing (denoted ++ (← loop (fun r => r.peek != '\x22' && !r.atEnd) item advances_item))

private theorem run_itemsAfter_cons {c : Char} (hc : c ≠ '\x22') (denoted read text : List Char)
    (p : Position) :
    (itemsAfter denoted).run ⟨read, c :: text, p⟩ =
      match item.run ⟨read, c :: text, p⟩ with
      | .error stop => .error stop
      | .ok (d, r) => (itemsAfter (denoted ++ [d])).run r := by
  rw [itemsAfter, run_loop_bind]
  cases item.run ⟨read, c :: text, p⟩ <;> simp [itemsAfter, hc]

/-- The items of a string literal are read one after another. -/
private theorem run_itemsAfter (denoted read text : List Char) (p : Position) :
    (itemsAfter denoted).run ⟨read, text, p⟩ =
      match Lexeme.items text with
      | .error fault => .error (.fault ⟨fault.cause, p.past fault.read⟩)
      | .ok items =>
        let literal := items.flatMap Lexeme.Item.text ++ ['\x22']
        .ok (String.ofList (denoted ++ items.map Lexeme.Item.denotes),
          ⟨read ++ literal, text.drop literal.length, p.past literal⟩) := by
  -- what was read of the literal before grows with each item, so it is left open
  fun_induction Lexeme.items text generalizing denoted read p with
  | case1 =>
    rw [itemsAfter, run_loop_bind]
    simp [closing]
  | case2 rest =>
    rw [itemsAfter, run_loop_bind]
    simp [closing]
  | case3 rest fault hescape =>
    rw [run_itemsAfter_cons (by decide), run_item_backslash, run_escape, hescape]
    simp [Lexeme.Fault.after]
  | case4 rest i hescape fault hitems _ ih =>
    obtain ⟨-, escaped, htext, -⟩ := Lexeme.isWritten_of_escape hescape
    rw [run_itemsAfter_cons (by decide), run_item_backslash, run_escape, hescape]
    simp only [ih, hitems]
    simp [htext, Position.past_append, Lexeme.Fault.after]
  | case5 rest i hescape more hitems _ ih =>
    obtain ⟨-, escaped, htext, -⟩ := Lexeme.isWritten_of_escape hescape
    rw [run_itemsAfter_cons (by decide), run_item_backslash, run_escape, hescape]
    simp only [ih, hitems]
    simp [htext, Position.past_append, ← Nat.add_assoc]
  | case6 c rest hquote hbackslash fault hitems ih =>
    rw [run_itemsAfter_cons hquote, run_item_of_ne hbackslash]
    simp [ih, hitems, Lexeme.Fault.after]
  | case7 c rest hquote hbackslash more hitems ih =>
    rw [run_itemsAfter_cons hquote, run_item_of_ne hbackslash]
    simp [ih, hitems]

/-- The characters of a string literal are what its items denote. -/
theorem run_string (read text : List Char) (p : Position) :
    string.run ⟨read, text, p⟩ =
      match Lexeme.items text with
      | .error fault => .error (.fault ⟨fault.cause, p.past fault.read⟩)
      | .ok items =>
        let literal := items.flatMap Lexeme.Item.text ++ ['\x22']
        .ok (String.ofList (items.map Lexeme.Item.denotes),
          ⟨read ++ literal, text.drop literal.length, p.past literal⟩) :=
  run_itemsAfter [] read text p

/-! ### Comments -/

theorem run_lineComment (read text : List Char) (p : Position) :
    lineComment.run ⟨read, text, p⟩ =
      let comment := text.takeWhile (· ≠ '\n')
      .ok ((), ⟨read ++ comment, text.dropWhile (· ≠ '\n'), p.past comment⟩) := by
  have hcons (read : List Char) (c : Char) (rest : List Char) (p : Position) :
      (decide ((⟨read, c :: rest, p⟩ : Reader).peek ≠ '\n') &&
        !(⟨read, c :: rest, p⟩ : Reader).atEnd) = decide (c ≠ '\n') :=
    Bool.and_true _
  rw [lineComment, run_bind, run_advanceWhile hcons fun _ _ => Bool.and_false _]
  rfl

theorem closes_iff (read text : List Char) (c : Char) (p : Position) :
    ((⟨read, c :: text, p⟩ : Reader).peek == '*' &&
      (⟨read, c :: text, p⟩ : Reader).peekNext == '/') = true ↔ ['*', '/'] <+: c :: text := by
  cases text with
  | nil => simp
  | cons d text => simp [List.cons_prefix_cons, eq_comm (a := c), eq_comm (a := d)]

/-- A comment is read up to the first end of a comment. -/
theorem run_blockComment (read text : List Char) (p : Position) :
    blockComment.run ⟨read, text, p⟩ =
      match Lexeme.blockComment? text with
      | none => .error (.fault ⟨.unterminatedComment, p.past text⟩)
      | some comment =>
        .ok ((), ⟨read ++ comment, text.drop comment.length, p.past comment⟩) := by
  induction text generalizing read p with
  | nil =>
    rw [blockComment, advanceWhile, run_loop_bind]
    simp [Lexeme.blockComment?]
  | cons c text ih =>
    by_cases hclose : ['*', '/'] <+: c :: text
    · obtain ⟨after, hafter⟩ := hclose
      cases hafter
      rw [blockComment, advanceWhile, run_loop_bind]
      simp [Lexeme.blockComment?]
    · have hopen := Bool.eq_false_iff.mpr fun h => hclose ((closes_iff read text c p).mp h)
      have hstep : blockComment.run ⟨read, c :: text, p⟩ =
          blockComment.run ⟨read ++ [c], text, p.next c⟩ := by
        rw [blockComment, advanceWhile, run_loop_bind, hopen]
        rfl
      rw [hstep, ih, Lexeme.blockComment?_cons hclose]
      cases Lexeme.blockComment? text <;> simp

/-! ### Numbers and words -/

theorem run_word (read text : List Char) (p : Position) :
    word.run ⟨read, text, p⟩ =
      let rest := text.takeWhile Lexeme.isWordPart
      .ok (Kind.ofWord (String.ofList (read ++ rest)),
        ⟨read ++ rest, text.dropWhile Lexeme.isWordPart, p.past rest⟩) := by
  rw [word, run_bind, run_advanceWhile (q := Lexeme.isWordPart) (fun _ _ _ _ => rfl)
    fun _ _ => rfl]
  rfl

/-- The number that is written by digits. -/
theorem decimal_eq {whole : List Char} (hwhole : ∀ d ∈ whole, Lexeme.isDigit d)
    (fraction : List Char) :
    decimal (whole ++ if fraction.isEmpty then [] else '.' :: fraction) =
      .ofDecimal (Nat.ofDigitChars 10 (whole ++ fraction) 0) fraction.length := by
  rw [decimal, List.takeWhile_append_of_pos hwhole, List.dropWhile_append_of_pos hwhole]
  cases fraction with
  | nil => simp
  | cons d fraction => simp [show Lexeme.isDigit '.' = false from rfl]

/-- A point is read if digits follow it. -/
theorem beq_point_and_isDigit (read text : List Char) (p : Position) :
    ((⟨read, text, p⟩ : Reader).peek == '.' &&
      Lexeme.isDigit (⟨read, text, p⟩ : Reader).peekNext) = !(Lexeme.fraction text).isEmpty := by
  cases text with
  | nil => rfl
  | cons c text =>
    by_cases hc : c = '.'
    · subst hc
      cases text with
      | nil => rfl
      | cons d text => cases hd : Lexeme.isDigit d <;> simp [Lexeme.fraction, hd]
    · simp [Lexeme.fraction, hc]

/-- The digits at the front of a text, with a point between them if there is a fraction. -/
def digitsOf (text : List Char) : List Char :=
  let fraction := Lexeme.fraction (text.dropWhile Lexeme.isDigit)
  text.takeWhile Lexeme.isDigit ++ if fraction.isEmpty then [] else '.' :: fraction

theorem run_number (read text : List Char) (p : Position) :
    number.run ⟨read, text, p⟩ =
      .ok (decimal (read ++ digitsOf text),
        ⟨read ++ digitsOf text, text.drop (digitsOf text).length, p.past (digitsOf text)⟩) := by
  have hdigits (read text : List Char) (p : Position) :
      (advanceWhile fun r => Lexeme.isDigit r.peek).run ⟨read, text, p⟩ = .ok (_, _) :=
    run_advanceWhile (q := Lexeme.isDigit) (fun _ _ _ _ => rfl) (fun _ _ => rfl) read text p
  rw [number, run_bind, hdigits]
  simp only [run_bind, run_reader, beq_point_and_isDigit, digitsOf, List.length_append,
    ← List.drop_drop, drop_length_takeWhile]
  cases hafter : text.dropWhile Lexeme.isDigit with
  | nil => simp [Lexeme.fraction]
  | cons c after =>
    by_cases hc : c = '.'
    · subst hc
      -- a point that no digit follows is left to be read as a token of its own
      by_cases hfraction : Lexeme.fraction ('.' :: after) = []
      · simp [hfraction]
      · have hempty : (Lexeme.fraction ('.' :: after)).isEmpty = false := by simpa using hfraction
        simp only [hempty, Bool.not_false, if_true, run_bind, run_advance, hdigits, run_reader,
          run_pure, Bool.false_eq_true, if_false]
        simp [Lexeme.fraction, Position.past_append, drop_length_takeWhile]
    · simp [Lexeme.fraction, hc]

/-! ### Tokens -/

/-- What reading a lexeme comes to, given what scanning comes to. -/
def taken (text : List Char) (p : Position) :
    Except Lexeme.Fault Lexeme → Except Stop (Option (Kind × Constant) × Reader)
  | .error fault => .error (.fault ⟨fault.cause, p.past fault.read⟩)
  | .ok l => .ok (l.meaning, ⟨l.text, text.drop l.text.length, p.past l.text⟩)

private theorem run_lexeme_slash (rest : List Char) (p : Position) :
    lexeme.run ⟨[], '/' :: rest, p⟩ = taken ('/' :: rest) p (Lexeme.scan '/' rest) := by
  have hstep : lexeme.run ⟨[], '/' :: rest, p⟩ =
      Scan.run (do
        if ← advanceIf '/' then
          lineComment
          return none
        else if ← advanceIf '*' then
          blockComment
          return none
        else return some (.slash, .null)) ⟨['/'], rest, p.next '/'⟩ := rfl
  rw [hstep]
  simp only [run_bind, run_advanceIf]
  cases rest with
  | nil => rfl
  | cons c rest =>
    by_cases hline : c = '/'
    · subst hline
      simp [taken, Lexeme.scan_slash_slash, run_lineComment, drop_length_takeWhile]
    by_cases hblock : c = '*'
    · subst hblock
      rw [Lexeme.scan_slash_star]
      cases hcomment : Lexeme.blockComment? rest <;>
        simp [taken, run_advanceIf, run_blockComment, hcomment]
    · simp [taken, run_advanceIf, Lexeme.scan_slash hline hblock, hline, hblock, Lexeme.ofOperator]

private theorem run_lexeme_quote (rest : List Char) (p : Position) :
    lexeme.run ⟨[], '\x22' :: rest, p⟩ = taken ('\x22' :: rest) p (Lexeme.scan '\x22' rest) := by
  have hstep : lexeme.run ⟨[], '\x22' :: rest, p⟩ =
      Scan.run (do return some (.string, .text (← string))) ⟨['\x22'], rest, p.next '\x22'⟩ := rfl
  rw [hstep, Lexeme.scan_quote, run_bind, run_string]
  cases Lexeme.items rest <;> simp [taken, Lexeme.ofItems, Lexeme.Fault.after]

/-- A lexeme is read as it is scanned. -/
theorem run_lexeme (c : Char) (rest : List Char) (p : Position) :
    lexeme.run ⟨[], c :: rest, p⟩ = taken (c :: rest) p (Lexeme.scan c rest) := by
  by_cases hslash : c = '/'
  · exact hslash ▸ run_lexeme_slash rest p
  by_cases hquote : c = '\x22'
  · exact hquote ▸ run_lexeme_quote rest p
  simp only [lexeme, run_bind, run_advance, List.nil_append, Lexeme.scan, if_neg hslash,
    if_neg hquote]
  cases Lexeme.singles.lookup c with
  | some kind => simp [taken, Lexeme.ofOperator]
  | none =>
    cases Lexeme.doubles.lookup c with
    | some entry =>
      obtain ⟨second, long, short⟩ := entry
      by_cases hsecond : rest.head? = some second
      · simp [taken, run_advanceIf, Lexeme.ofOperator, hsecond]
      · simp [taken, run_advanceIf, Lexeme.ofOperator, hsecond]
    | none =>
      by_cases hspace : Lexeme.isSpace c = true
      · simp [taken, hspace]
      by_cases hdigit : Lexeme.isDigit c = true
      · have hwhole : ∀ d ∈ c :: rest.takeWhile Lexeme.isDigit, Lexeme.isDigit d :=
          List.forall_mem_cons.mpr
            ⟨hdigit, fun d hd => List.all_eq_true.mp List.all_takeWhile d hd⟩
        have hvalue := decimal_eq hwhole (Lexeme.fraction (rest.dropWhile Lexeme.isDigit))
        simp only [hspace, hdigit, Bool.false_eq_true, if_true, if_false, run_bind, run_number,
          taken, Lexeme.ofDigits, ← hvalue]
        rfl
      by_cases hword : Lexeme.isWordStart c = true
      · simp [taken, hspace, hdigit, hword, run_word, Lexeme.ofWord, drop_length_takeWhile]
      · simp [taken, hspace, hdigit, hword]

theorem run_token? (c : Char) (read rest : List Char) (p : Position) :
    token?.run ⟨read, c :: rest, p⟩ =
      match Lexeme.scan c rest with
      | .error fault => .error (.fault ⟨fault.cause, p.past fault.read⟩)
      | .ok l =>
        .ok (l.token? (p.past l.text),
          ⟨l.text, (c :: rest).drop l.text.length, p.past l.text⟩) := by
  simp only [token?, run_bind, run_start, run_lexeme]
  cases Lexeme.scan c rest <;> rfl

/-- The rest of a text, of which some lexemes were read. -/
private def tokensAfter (found : List (Option Token)) : Scan (List Token) := do
  ending (found ++ (← loop (fun r => !r.atEnd) token? advances_token?))

private theorem run_tokensAfter_cons (found : List (Option Token)) (c : Char)
    (read rest : List Char) (p : Position) :
    (tokensAfter found).run ⟨read, c :: rest, p⟩ =
      match Lexeme.scan c rest with
      | .error fault => .error (.fault ⟨fault.cause, p.past fault.read⟩)
      | .ok l => (tokensAfter (found ++ [l.token? (p.past l.text)])).run
          ⟨l.text, (c :: rest).drop l.text.length, p.past l.text⟩ := by
  rw [tokensAfter, run_loop_bind, run_token?]
  cases Lexeme.scan c rest <;> simp [tokensAfter]

/-- The tokens are read one after another. -/
private theorem run_tokensAfter (found : List (Option Token)) (read text : List Char)
    (p : Position) :
    ((tokensAfter found).run ⟨read, text, p⟩).map Prod.fst =
      match lexFrom p text with
      | .error fault => .error (.fault fault)
      | .ok tokens => .ok (found.filterMap id ++ tokens) := by
  fun_induction lexFrom p text generalizing found read with
  | case1 p =>
    rw [tokensAfter, run_loop_bind]
    simp [ending, Except.map]
  | case2 p c rest fault hscan =>
    rw [run_tokensAfter_cons, hscan]
    rfl
  | case3 p c rest l hscan stop fault hlex ih =>
    rw [run_tokensAfter_cons, hscan]
    simp only [ih, hlex, stop]
  | case4 p c rest l hscan stop tokens hlex ih =>
    rw [run_tokensAfter_cons, hscan]
    simp only [ih, hlex, stop, List.filterMap_append, List.append_assoc]
    cases l.token? (p.past l.text) <;> rfl

/-- Reading a text character by character gives the tokens or the fault that taking lexemes off the
text gives. It never goes behind the end of the text. -/
theorem lex_eq (source : String) :
    lex source =
      match Script.lex source with
      | .error fault => .error (.fault fault)
      | .ok tokens => .ok tokens :=
  run_tokensAfter [] [] source.toList .start

end Scan

end Script
