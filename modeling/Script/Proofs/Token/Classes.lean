import Script.Token.Lexing

/-!
# Classes of lexemes

What a lexeme is, said without scanning: white space, comments, operators, string literals, numbers
and words. The classes overlap at the front of a text. Two slashes start a comment and the first of
them is an operator, so a text can start with several lexemes, and scanning takes the longest.

There is one exception. A text that opens a comment and never closes it starts with an operator, the
slash, but scanning refuses it.

## Main definitions

* `IsLexeme` : the classes.
* `Lexeme.IsLongest` : the longest lexeme at the front of a text.
* `OpensComment` : a comment is opened and not closed.

## Main results

* `Lexeme.scan_eq_ok_iff` : scanning takes the longest lexeme of a text that opens no comment.
-/

namespace Script

namespace Lexeme

/-- The operators and their kinds. -/
def operators : List (List Char × Kind) :=
  [(['('], .leftParen), ([')'], .rightParen), (['\x7b'], .leftBrace), (['\x7d'], .rightBrace),
    (['['], .leftBracket), ([']'], .rightBracket), (['+'], .plus), (['-'], .minus), (['*'], .star),
    (['/'], .slash), ([';'], .semicolon), ([':'], .colon), (['.'], .dot), (['?'], .questionMark),
    ([','], .comma), (['!'], .bang), (['!', '='], .bangEqual), (['='], .equal),
    (['=', '='], .equalEqual), (['<'], .less), (['<', '='], .lessEqual), (['>'], .greater),
    (['>', '='], .greaterEqual), (['&'], .ampersand), (['&', '&'], .andAnd), (['|'], .pipe),
    (['|', '|'], .orOr), (['+', '+'], .plusPlus), (['-', '-'], .minusMinus)]

/-- How an item of a string literal can be written. -/
inductive Item.IsWritten : Item → Prop
  | plain {c : Char} (hquote : c ≠ '\x22') (hbackslash : c ≠ '\\') : IsWritten ⟨[c], c⟩
  | simple {c denotes : Char} (hescape : (c, denotes) ∈ simpleEscapes) :
      IsWritten ⟨['\\', c], denotes⟩
  | hex {letter : Char} {digits : List Char} (hescape : (letter, digits.length) ∈ hexEscapes)
      (hdigits : ∀ c ∈ digits, (hexValue? c).isSome)
      (hcode : isSurrogate (hexNumber digits) = false) :
      IsWritten ⟨'\\' :: letter :: digits, Char.ofNat (hexNumber digits)⟩

end Lexeme

open Lexeme

/-- The classes of lexemes. A comment between `/*` and `*/` ends with the first `*/` behind its
opening, and a word is a keyword only as a whole. -/
inductive IsLexeme : Lexeme → Prop
  | space {c : Char} (hspace : c ∈ [' ', '\r', '\t', '\n']) : IsLexeme ⟨[c], none⟩
  | lineComment {body : List Char} (hbody : '\n' ∉ body) : IsLexeme ⟨'/' :: '/' :: body, none⟩
  | blockComment {body : List Char} (hbody : ¬['*', '/'] <:+: body ++ ['*']) :
      IsLexeme ⟨'/' :: '*' :: (body ++ ['*', '/']), none⟩
  | operator {text : List Char} {kind : Kind} (hmem : (text, kind) ∈ operators) :
      IsLexeme ⟨text, some (kind, .null)⟩
  | string {items : List Item} (hitems : ∀ item ∈ items, item.IsWritten) :
      IsLexeme ⟨'\x22' :: (items.flatMap Item.text ++ ['\x22']),
        some (.string, .text (String.ofList (items.map Item.denotes)))⟩
  | integer {digits : List Char} (hne : digits ≠ []) (hdigits : ∀ c ∈ digits, isDigit c) :
      IsLexeme ⟨digits, some (.number, .number (.ofDecimal (Nat.ofDigitChars 10 digits 0) 0))⟩
  | decimal {whole fraction : List Char} (hwhole : whole ≠ []) (hfraction : fraction ≠ [])
      (hdigits : ∀ c ∈ whole ++ fraction, isDigit c) :
      IsLexeme ⟨whole ++ '.' :: fraction, some (.number, .number
        (.ofDecimal (Nat.ofDigitChars 10 (whole ++ fraction) 0) fraction.length))⟩
  | keyword {word : List Char} {kind : Kind} (hmem : (String.ofList word, kind) ∈ Kind.keywords) :
      IsLexeme ⟨word, some (kind, .null)⟩
  | identifier {c : Char} {word : List Char} (hstart : isWordStart c)
      (hparts : ∀ d ∈ word, isWordPart d)
      (hnot : ∀ kind, (String.ofList (c :: word), kind) ∉ Kind.keywords) :
      IsLexeme ⟨c :: word, some (.identifier, .null)⟩

/-- The longest lexeme at the front of a text. -/
structure Lexeme.IsLongest (l : Lexeme) (text : List Char) : Prop where
  isLexeme : IsLexeme l
  isPrefix : l.text <+: text
  longest : ∀ other, IsLexeme other → other.text <+: text → other.text.length ≤ l.text.length

/-- The text opens a comment and does not close it. -/
def OpensComment (text : List Char) : Prop :=
  ∃ rest, text = '/' :: '*' :: rest ∧ ¬['*', '/'] <:+: rest

namespace Lexeme

/-! ### Tables -/

theorem mem_of_lookup {α β : Type} [BEq α] [LawfulBEq α] {table : List (α × β)} {a : α}
    {b : β} (h : table.lookup a = some b) : (a, b) ∈ table := by
  obtain ⟨before, after, rfl, -⟩ := List.lookup_eq_some_iff.mp h
  simp

theorem lookup_eq_none {β : Type} {table : List (Char × β)} {c : Char}
    (h : c ∉ table.map Prod.fst) : table.lookup c = none := by
  rw [List.lookup_eq_none_iff]
  intro entry hentry
  rw [bne_iff_ne]
  rintro rfl
  exact h (List.mem_map_of_mem hentry)

/-! ### String literals -/

theorem hexDigits_eq {count : Nat} {digits more : List Char} (hlength : digits.length = count)
    (hdigits : ∀ c ∈ digits, (hexValue? c).isSome) : hexDigits count (digits ++ more) = digits := by
  subst hlength
  rw [hexDigits, List.take_left]
  rw [← List.append_nil digits, List.takeWhile_append_of_pos hdigits, List.takeWhile_nil]

/-- A letter that digits follow stands for nothing on its own. -/
theorem lookup_of_mem_hexEscapes {entry : Char × Nat} (h : entry ∈ hexEscapes) :
    simpleEscapes.lookup entry.1 = none ∧ hexEscapes.lookup entry.1 = some entry.2 := by
  have hall : ∀ entry ∈ hexEscapes, simpleEscapes.lookup entry.1 = none ∧
      hexEscapes.lookup entry.1 = some entry.2 := by decide
  exact hall entry h

theorem escape_of_isWritten {item : Item} (h : item.IsWritten) {rest : List Char}
    (htext : item.text = '\\' :: rest) (more : List Char) : escape (rest ++ more) = .ok item := by
  have hsimple : ∀ entry ∈ simpleEscapes, simpleEscapes.lookup entry.1 = some entry.2 := by decide
  cases h with
  | plain _ hbackslash => simp_all
  | simple hescape =>
    cases htext
    simp only [List.cons_append, escape, hsimple _ hescape]
  | hex hescape hdigits hcode =>
    cases htext
    simp [escape, lookup_of_mem_hexEscapes hescape, hexDigits_eq rfl hdigits, hcode]

theorem isWritten_of_escape {text : List Char} {item : Item} (h : escape text = .ok item) :
    item.IsWritten ∧ ∃ rest, item.text = '\\' :: rest ∧ rest <+: text := by
  cases text with
  | nil => cases h
  | cons c text =>
    rw [escape] at h
    split at h
    · next hescape =>
      cases h
      exact ⟨.simple (mem_of_lookup hescape), [c], rfl, List.prefix_iff_eq_append.mpr rfl⟩
    · cases h
    · next count _ hescape =>
      dsimp only at h
      split at h
      · cases h
      · next hlength =>
        split at h
        · cases h
        · next hcode =>
          cases h
          have hcount : (hexDigits count text).length = count := by
            have hle : (hexDigits count text).length ≤ count :=
              Nat.le_trans (List.takeWhile_prefix _).length_le (List.length_take_le _ _)
            omega
          refine ⟨.hex ?_ ?_ (by simpa using hcode), c :: hexDigits count text, rfl, ?_⟩
          · rw [hcount]
            exact mem_of_lookup hescape
          · exact fun d hd => List.all_eq_true.mp List.all_takeWhile d hd
          · rw [List.cons_prefix_cons]
            exact ⟨rfl, (List.takeWhile_prefix _).trans (List.take_prefix _ _)⟩

private theorem items_append_escape {item : Item} {rest : List Char} (h : item.IsWritten)
    (htext : item.text = '\\' :: rest) (tail : List Char) :
    items (item.text ++ tail) =
      match items tail with
      | .error fault => .error (fault.after item.text)
      | .ok is => .ok (item :: is) := by
  have hescape := escape_of_isWritten h htext tail
  have hdrop : (rest ++ tail).drop (item.text.length - 1) = tail := by
    rw [htext, List.length_cons, Nat.add_sub_cancel, List.drop_left]
  have hcons : item.text ++ tail = '\\' :: (rest ++ tail) := by rw [htext, List.cons_append]
  rw [hcons, items, if_neg (by decide), if_pos rfl]
  cases hitems : items tail <;> simp only [hescape, hdrop, hitems]

/-- Reading one item and then others. -/
theorem items_append {item : Item} (h : item.IsWritten) (tail : List Char) :
    items (item.text ++ tail) =
      match items tail with
      | .error fault => .error (fault.after item.text)
      | .ok is => .ok (item :: is) := by
  cases h with
  | plain hquote hbackslash =>
    cases hitems : items tail <;> simp [items, hquote, hbackslash, hitems]
  | simple hescape => exact items_append_escape (.simple hescape) rfl tail
  | hex hescape hdigits hcode => exact items_append_escape (.hex hescape hdigits hcode) rfl tail

/-- Reading some items and then others. -/
theorem items_flatMap_append {is : List Item} (h : ∀ item ∈ is, item.IsWritten)
    (tail : List Char) :
    items (is.flatMap Item.text ++ tail) =
      match items tail with
      | .error fault => .error (fault.after (is.flatMap Item.text))
      | .ok others => .ok (is ++ others) := by
  induction is with
  | nil =>
    rw [List.flatMap_nil, List.nil_append]
    cases items tail <;> rfl
  | cons item is ih =>
    rw [List.forall_mem_cons] at h
    rw [List.flatMap_cons, List.append_assoc, items_append h.1, ih h.2]
    cases items tail <;> simp [Fault.after]

theorem items_quote (more : List Char) : items ('\x22' :: more) = .ok [] := by
  rw [items, if_pos rfl]

theorem items_backslash_of_error {tail : List Char} {fault : Fault}
    (h : escape tail = .error fault) : items ('\\' :: tail) = .error (fault.after ['\\']) := by
  rw [items, if_neg (by decide), if_pos rfl]
  simp only [h]

theorem items_of_isWritten {is : List Item} (h : ∀ item ∈ is, item.IsWritten) (more : List Char) :
    items (is.flatMap Item.text ++ '\x22' :: more) = .ok is := by
  simp only [items_flatMap_append h, items_quote, List.append_nil]

theorem isWritten_of_items {text : List Char} {is : List Item} (h : items text = .ok is) :
    (∀ item ∈ is, item.IsWritten) ∧ is.flatMap Item.text ++ ['\x22'] <+: text := by
  fun_induction items text generalizing is with
  | case1 => cases h
  | case2 rest =>
    cases h
    exact ⟨by simp, by simp⟩
  | case3 | case4 => cases h
  | case5 rest item hescape more hitems _ ih =>
    cases h
    obtain ⟨hitem, tail, htext, hstarts⟩ := isWritten_of_escape hescape
    obtain ⟨hmore, hrest⟩ := ih hitems
    refine ⟨List.forall_mem_cons.mpr ⟨hitem, hmore⟩, ?_⟩
    obtain ⟨after, rfl⟩ := hstarts
    rw [htext, List.length_cons, Nat.add_sub_cancel, List.drop_left] at hrest
    rw [List.flatMap_cons, htext, List.append_assoc, List.cons_append, List.cons_prefix_cons]
    exact ⟨rfl, List.prefix_append_right_inj _ |>.mpr hrest⟩
  | case6 => cases h
  | case7 c rest hquote hbackslash more hitems ih =>
    cases h
    obtain ⟨hmore, hrest⟩ := ih hitems
    refine ⟨List.forall_mem_cons.mpr ⟨.plain hquote hbackslash, hmore⟩, ?_⟩
    rw [List.flatMap_cons, List.append_assoc, List.singleton_append, List.cons_prefix_cons]
    exact ⟨rfl, hrest⟩

/-! ### Comments -/

theorem blockComment?_cons {c : Char} {rest : List Char}
    (h : ¬['*', '/'] <+: c :: rest) :
    blockComment? (c :: rest) = (blockComment? rest).map (c :: ·) := by
  rw [blockComment?]
  rintro after rfl rfl
  exact h ⟨after, rfl⟩

theorem blockComment?_append {body more : List Char} (hbody : ¬['*', '/'] <:+: body ++ ['*']) :
    blockComment? (body ++ '*' :: '/' :: more) = some (body ++ ['*', '/']) := by
  induction body with
  | nil => rfl
  | cons c body ih =>
    rw [List.cons_append, List.infix_cons_iff, not_or] at hbody
    have hclose : ¬['*', '/'] <+: c :: (body ++ '*' :: '/' :: more) := by
      intro h
      apply hbody.1
      rw [List.cons_prefix_cons] at h ⊢
      cases body with
      | nil => simp at h
      | cons d body => simpa using h
    rw [List.cons_append, blockComment?_cons hclose, ih hbody.2]
    rfl

theorem blockComment?_eq_some {text comment : List Char} (h : blockComment? text = some comment) :
    ∃ body, comment = body ++ ['*', '/'] ∧ ¬['*', '/'] <:+: body ++ ['*'] ∧ comment <+: text := by
  induction text generalizing comment with
  | nil => cases h
  | cons c text ih =>
    by_cases hclose : ['*', '/'] <+: c :: text
    · obtain ⟨after, hafter⟩ := hclose
      cases hafter
      cases h
      exact ⟨[], rfl, by decide, after, rfl⟩
    · rw [blockComment?_cons hclose, Option.map_eq_some_iff] at h
      obtain ⟨comment, hcomment, rfl⟩ := h
      obtain ⟨body, rfl, hbody, after, rfl⟩ := ih hcomment
      refine ⟨c :: body, rfl, ?_, after, rfl⟩
      rw [List.cons_append, List.infix_cons_iff, not_or]
      refine ⟨fun h => hclose ?_, hbody⟩
      rw [List.cons_prefix_cons] at h ⊢
      cases body with
      | nil => simp at h
      | cons d body => simpa using h

theorem blockComment?_eq_none {text : List Char} (h : blockComment? text = none) :
    ¬['*', '/'] <:+: text := by
  induction text with
  | nil => decide
  | cons c text ih =>
    by_cases hclose : ['*', '/'] <+: c :: text
    · obtain ⟨after, hafter⟩ := hclose
      cases hafter
      cases h
    · rw [blockComment?_cons hclose, Option.map_eq_none_iff] at h
      rw [List.infix_cons_iff, not_or]
      exact ⟨hclose, ih h⟩

/-! ### What scanning does with each class -/

section

variable {c : Char} {rest : List Char}

theorem scan_of_mem_spaces (h : c ∈ [' ', '\r', '\t', '\n']) : scan c rest = .ok ⟨[c], none⟩ := by
  simp only [List.mem_cons, List.not_mem_nil, or_false] at h
  rcases h with rfl | rfl | rfl | rfl <;> rfl

theorem scan_of_mem_singles {entry : Char × Kind} (h : entry ∈ singles) :
    scan entry.1 rest = .ok (ofOperator [entry.1] entry.2) := by
  have hlookup : ∀ entry ∈ singles, singles.lookup entry.1 = some entry.2 := by decide
  simp only [scan, hlookup entry h]

theorem scan_of_mem_doubles {entry : Char × Char × Kind × Kind} (h : entry ∈ doubles) :
    scan entry.1 rest = .ok (if rest.head? = some entry.2.1
      then ofOperator [entry.1, entry.2.1] entry.2.2.1 else ofOperator [entry.1] entry.2.2.2) := by
  have hlookup : ∀ entry ∈ doubles, singles.lookup entry.1 = none ∧
      doubles.lookup entry.1 = some entry.2 := by decide
  simp only [scan, hlookup entry h]
  split <;> rfl

theorem scan_slash_star :
    scan '/' ('*' :: rest) =
      match blockComment? rest with
      | none => .error ⟨.unterminatedComment, '/' :: '*' :: rest⟩
      | some text => .ok ⟨'/' :: '*' :: text, none⟩ := rfl

theorem scan_slash_slash :
    scan '/' ('/' :: rest) = .ok ⟨'/' :: '/' :: rest.takeWhile (· ≠ '\n'), none⟩ := rfl

theorem scan_slash (hline : c ≠ '/') (hblock : c ≠ '*') :
    scan '/' (c :: rest) = .ok (ofOperator ['/'] .slash) := by
  simp [scan, show singles.lookup '/' = none by decide, show doubles.lookup '/' = none by decide,
    hline, hblock]

theorem scan_quote :
    scan '\x22' rest =
      match items rest with
      | .error fault => .error (fault.after ['\x22'])
      | .ok is => .ok (ofItems is) := rfl

theorem scan_string {is : List Item} (h : ∀ item ∈ is, item.IsWritten) (more : List Char) :
    scan '\x22' (is.flatMap Item.text ++ '\x22' :: more) = .ok (ofItems is) := by
  rw [scan_quote, items_of_isWritten h]

/-- The characters that start an operator, a comment or a string literal, or are white space. -/
private def signs : List Char :=
  singles.map Prod.fst ++ doubles.map Prod.fst ++ [' ', '\r', '\t', '\n'] ++ ['/', '\x22']

private theorem scan_of_notMem_signs (h : c ∉ signs) :
    scan c rest =
      if isDigit c then
        .ok (ofDigits (c :: rest.takeWhile isDigit) (fraction (rest.dropWhile isDigit)))
      else if isWordStart c then .ok (ofWord (c :: rest.takeWhile isWordPart))
      else .error ⟨.unexpected c, [c]⟩ := by
  simp only [signs, List.mem_append, not_or] at h
  obtain ⟨⟨⟨hsingle, hdouble⟩, hspace⟩, hother⟩ := h
  have hsingles : singles.lookup c = none := lookup_eq_none hsingle
  have hdoubles : doubles.lookup c = none := lookup_eq_none hdouble
  simp only [List.mem_cons, List.not_mem_nil, or_false, not_or] at hspace hother
  obtain ⟨hslash, hquote⟩ := hother
  have hspace : isSpace c = false := by simp [isSpace, hspace]
  simp only [scan, hsingles, hdoubles, if_neg hslash, hspace, if_neg hquote, Bool.false_eq_true,
    if_false]

private theorem notMem_signs (isOf : Char → Bool) (h : isOf c = true)
    (hsigns : signs.any isOf = false) : c ∉ signs := by
  intro hmem
  exact absurd h (List.any_eq_false.mp hsigns c hmem)

theorem scan_of_isDigit (h : isDigit c = true) :
    scan c rest =
      .ok (ofDigits (c :: rest.takeWhile isDigit) (fraction (rest.dropWhile isDigit))) := by
  rw [scan_of_notMem_signs (notMem_signs isDigit h (by decide)), if_pos h]

theorem isDigit_eq_false_of_isWordStart (h : isWordStart c = true) : isDigit c = false := by
  rw [Bool.eq_false_iff]
  intro hdigit
  simp only [isWordStart, isDigit, Bool.or_eq_true, Bool.and_eq_true, decide_eq_true_eq,
    beq_iff_eq, Char.le_def, UInt32.le_iff_toNat_le] at h hdigit
  have hle : c.val.toNat ≤ 57 := hdigit.2
  rcases h with ((h | h) | rfl) | rfl
  · exact absurd (Nat.le_trans h.1 hle) (by decide)
  · exact absurd (Nat.le_trans h.1 hle) (by decide)
  · revert hle
    decide
  · exact absurd hdigit.1 (by decide)

theorem scan_of_isWordStart (h : isWordStart c = true) :
    scan c rest = .ok (ofWord (c :: rest.takeWhile isWordPart)) := by
  rw [scan_of_notMem_signs (notMem_signs isWordStart h (by decide)),
    isDigit_eq_false_of_isWordStart h, if_neg Bool.false_ne_true, if_pos h]

/-! ### Scanning finds lexemes -/

theorem isLexeme_ofDigits {whole fraction : List Char} (hwhole : whole ≠ [])
    (hdigits : ∀ d ∈ whole ++ fraction, isDigit d) : IsLexeme (ofDigits whole fraction) := by
  cases fraction with
  | nil =>
    rw [List.append_nil] at hdigits
    have h := IsLexeme.integer hwhole hdigits
    simpa [ofDigits] using h
  | cons d fraction => exact .decimal hwhole (List.cons_ne_nil _ _) hdigits

theorem fraction_isPrefix (text : List Char) :
    (if (fraction text).isEmpty then [] else '.' :: fraction text) <+: text := by
  cases text with
  | nil => exact List.nil_prefix
  | cons d text =>
    by_cases hd : d = '.'
    · subst hd
      split
      · exact List.nil_prefix
      · exact List.cons_prefix_cons.mpr ⟨rfl, List.takeWhile_prefix _⟩
    · have hfraction : fraction (d :: text) = [] := by simp [fraction, hd]
      simp [hfraction]

theorem isDigit_of_mem_fraction {text : List Char} {d : Char} (h : d ∈ fraction text) :
    isDigit d := by
  unfold fraction at h
  split at h
  · exact List.all_eq_true.mp List.all_takeWhile d h
  · cases h

theorem isLexeme_ofWord {word : List Char} (hstart : isWordStart c = true)
    (hparts : ∀ d ∈ word, isWordPart d) : IsLexeme (ofWord (c :: word)) := by
  cases hlookup : Kind.keywords.lookup (String.ofList (c :: word)) with
  | some kind =>
    rw [ofWord, Kind.ofWord, hlookup]
    exact .keyword (mem_of_lookup hlookup)
  | none =>
    have hnot : ∀ kind, (String.ofList (c :: word), kind) ∉ Kind.keywords := by
      intro kind hmem
      have hne := List.lookup_eq_none_iff.mp hlookup _ hmem
      simp at hne
    rw [ofWord, Kind.ofWord, hlookup]
    exact .identifier hstart hparts hnot

private theorem isLexeme_of_scan_slash {l : Lexeme} (h : scan '/' rest = .ok l) :
    IsLexeme l ∧ l.text <+: '/' :: rest := by
  cases rest with
  | nil =>
    cases h
    exact ⟨.operator (by decide), List.prefix_rfl⟩
  | cons d rest =>
    by_cases hline : d = '/'
    · subst hline
      cases h
      refine ⟨.lineComment fun hmem => ?_, ?_⟩
      · simpa using List.all_eq_true.mp List.all_takeWhile _ hmem
      · simpa using List.takeWhile_prefix _
    · by_cases hblock : d = '*'
      · subst hblock
        rw [scan_slash_star] at h
        cases hcomment : blockComment? rest with
        | none =>
          rw [hcomment] at h
          cases h
        | some comment =>
          rw [hcomment] at h
          cases h
          obtain ⟨body, rfl, hbody, hstarts⟩ := blockComment?_eq_some hcomment
          exact ⟨.blockComment hbody, by simpa using hstarts⟩
      · rw [scan_slash hline hblock] at h
        cases h
        exact ⟨.operator (by decide), List.prefix_append ['/'] _⟩

private theorem isLexeme_of_scan_quote {l : Lexeme} (h : scan '\x22' rest = .ok l) :
    IsLexeme l ∧ l.text <+: '\x22' :: rest := by
  rw [scan_quote] at h
  cases hitems : items rest with
  | error fault =>
    rw [hitems] at h
    cases h
  | ok is =>
    rw [hitems] at h
    cases h
    obtain ⟨hwritten, hstarts⟩ := isWritten_of_items hitems
    exact ⟨.string hwritten, List.cons_prefix_cons.mpr ⟨rfl, hstarts⟩⟩

private theorem isLexeme_of_scan_digit {l : Lexeme} (hdigit : isDigit c = true)
    (h : scan c rest = .ok l) : IsLexeme l ∧ l.text <+: c :: rest := by
  rw [scan_of_isDigit hdigit] at h
  cases h
  refine ⟨isLexeme_ofDigits (List.cons_ne_nil _ _) fun d hd => ?_, ?_⟩
  · rw [List.mem_append, List.mem_cons] at hd
    rcases hd with (rfl | hd) | hd
    · exact hdigit
    · exact List.all_eq_true.mp List.all_takeWhile d hd
    · exact isDigit_of_mem_fraction hd
  · have hsplit : rest = rest.takeWhile isDigit ++ rest.dropWhile isDigit := by simp
    refine List.cons_prefix_cons.mpr ⟨rfl, ?_⟩
    conv => rhs; rw [hsplit]
    exact List.prefix_append_right_inj _ |>.mpr (fraction_isPrefix _)

theorem isLexeme_of_scan {l : Lexeme} (h : scan c rest = .ok l) :
    IsLexeme l ∧ l.text <+: c :: rest := by
  by_cases hsign : c ∈ signs
  · simp only [signs, List.mem_append] at hsign
    rcases hsign with ((hsingle | hdouble) | hspace) | hother
    · have hoperators : ∀ entry ∈ singles, ([entry.1], entry.2) ∈ operators := by decide
      obtain ⟨entry, hentry, rfl⟩ := List.mem_map.mp hsingle
      rw [scan_of_mem_singles hentry] at h
      cases h
      exact ⟨.operator (hoperators entry hentry), List.prefix_append [entry.1] rest⟩
    · have hoperators : ∀ entry ∈ doubles, ([entry.1, entry.2.1], entry.2.2.1) ∈ operators ∧
          ([entry.1], entry.2.2.2) ∈ operators := by decide
      obtain ⟨entry, hentry, rfl⟩ := List.mem_map.mp hdouble
      obtain ⟨hlong, hshort⟩ := hoperators entry hentry
      rw [scan_of_mem_doubles hentry] at h
      split at h
      · next hsecond =>
        cases h
        obtain ⟨rest, rfl⟩ := List.head?_eq_some_iff.mp hsecond
        exact ⟨.operator hlong, List.prefix_append [entry.1, entry.2.1] rest⟩
      · cases h
        exact ⟨.operator hshort, List.prefix_append [entry.1] rest⟩
    · rw [scan_of_mem_spaces hspace] at h
      cases h
      exact ⟨.space hspace, List.prefix_append [c] rest⟩
    · simp only [List.mem_cons, List.not_mem_nil, or_false] at hother
      rcases hother with rfl | rfl
      · exact isLexeme_of_scan_slash h
      · exact isLexeme_of_scan_quote h
  · by_cases hdigit : isDigit c = true
    · exact isLexeme_of_scan_digit hdigit h
    · rw [scan_of_notMem_signs hsign, if_neg hdigit] at h
      split at h
      · next hstart =>
        cases h
        refine ⟨isLexeme_ofWord hstart fun d hd => ?_, ?_⟩
        · exact List.all_eq_true.mp List.all_takeWhile d hd
        · exact List.cons_prefix_cons.mpr ⟨rfl, List.takeWhile_prefix _⟩
      · cases h

/-! ### Scanning finds the longest lexeme -/

/-- Scanning a text gives a lexeme or a longer one, or the text opens a comment. -/
private def ScansTo (c : Char) (rest : List Char) (l : Lexeme) : Prop :=
  OpensComment (c :: rest) ∨
    ∃ found, scan c rest = .ok found ∧ (found = l ∨ l.text.length < found.text.length)

private theorem ScansTo.of_eq {l : Lexeme} (h : scan c rest = .ok l) : ScansTo c rest l :=
  .inr ⟨l, h, .inl rfl⟩

private theorem scansTo_slash : ScansTo '/' rest (ofOperator ['/'] .slash) := by
  cases rest with
  | nil => exact .of_eq rfl
  | cons d rest =>
    by_cases hline : d = '/'
    · subst hline
      exact .inr ⟨_, scan_slash_slash, .inr (Nat.succ_lt_succ (Nat.succ_pos _))⟩
    · by_cases hblock : d = '*'
      · subst hblock
        cases hcomment : blockComment? rest with
        | none => exact .inl ⟨rest, rfl, blockComment?_eq_none hcomment⟩
        | some comment =>
          refine .inr ⟨⟨'/' :: '*' :: comment, none⟩, ?_, .inr (Nat.succ_lt_succ (Nat.succ_pos _))⟩
          rw [scan_slash_star, hcomment]
      · exact .of_eq (scan_slash hline hblock)

/-- An operator is the slash or stands in one of the tables. -/
theorem operator_cases : ∀ operator ∈ operators, operator = (['/'], .slash) ∨
    (∃ entry ∈ singles, operator = ([entry.1], entry.2)) ∨
    ∃ entry ∈ doubles, operator = ([entry.1], entry.2.2.2) ∨
      operator = ([entry.1, entry.2.1], entry.2.2.1) := by
  decide

private theorem scansTo_operator {text : List Char} {kind : Kind} (hmem : (text, kind) ∈ operators)
    (hstarts : text <+: c :: rest) : ScansTo c rest ⟨text, some (kind, .null)⟩ := by
  rcases operator_cases _ hmem with heq | ⟨entry, hentry, heq⟩ | ⟨entry, hentry, heq | heq⟩
  · cases heq
    obtain rfl := (List.cons_prefix_cons.mp hstarts).1
    exact scansTo_slash
  · cases heq
    obtain rfl := (List.cons_prefix_cons.mp hstarts).1
    exact .of_eq (scan_of_mem_singles hentry)
  · cases heq
    obtain rfl := (List.cons_prefix_cons.mp hstarts).1
    refine .inr ⟨_, scan_of_mem_doubles hentry, ?_⟩
    split
    · exact .inr (Nat.lt_succ_self _)
    · exact .inl rfl
  · cases heq
    obtain ⟨rfl, hsecond⟩ := List.cons_prefix_cons.mp hstarts
    obtain ⟨rest, rfl⟩ := hsecond
    refine .of_eq ?_
    rw [scan_of_mem_doubles hentry]
    exact congrArg Except.ok (if_pos rfl)

private theorem scansTo_ofWord {word : List Char} (hstart : isWordStart c = true)
    (hparts : ∀ d ∈ word, isWordPart d) (hstarts : word <+: rest) :
    ScansTo c rest (ofWord (c :: word)) := by
  obtain ⟨more, rfl⟩ := hstarts
  refine .inr ⟨_, scan_of_isWordStart hstart, ?_⟩
  rw [List.takeWhile_append_of_pos hparts]
  cases more.takeWhile isWordPart with
  | nil => exact .inl (by rw [List.append_nil])
  | cons d more => exact .inr (by simp [ofWord])

private theorem scansTo_integer {digits : List Char} (hdigits : ∀ d ∈ c :: digits, isDigit d)
    (hstarts : digits <+: rest) : ScansTo c rest (ofDigits (c :: digits) []) := by
  obtain ⟨more, rfl⟩ := hstarts
  rw [List.forall_mem_cons] at hdigits
  refine .inr ⟨_, scan_of_isDigit hdigits.1, ?_⟩
  rw [List.takeWhile_append_of_pos hdigits.2, List.dropWhile_append_of_pos hdigits.2]
  cases more.takeWhile isDigit with
  | nil =>
    rw [List.append_nil]
    cases fraction (more.dropWhile isDigit) with
    | nil => exact .inl rfl
    | cons d fraction => exact .inr (by simp [ofDigits])
  | cons d more =>
    refine .inr ?_
    simp only [ofDigits, List.length_append, List.length_cons, List.isEmpty_nil, if_true,
      List.length_nil]
    omega

private theorem scansTo_decimal {whole digits : List Char}
    (hdigits : ∀ d ∈ c :: whole ++ digits, isDigit d) (hne : digits ≠ [])
    (hstarts : whole ++ '.' :: digits <+: rest) :
    ScansTo c rest (ofDigits (c :: whole) digits) := by
  obtain ⟨more, rfl⟩ := hstarts
  rw [List.cons_append, List.forall_mem_cons, List.forall_mem_append] at hdigits
  obtain ⟨hfirst, hwhole, hfraction⟩ := hdigits
  refine .inr ⟨_, scan_of_isDigit hfirst, ?_⟩
  have hpoint : ¬isDigit '.' = true := by decide
  rw [List.append_assoc, List.takeWhile_append_of_pos hwhole, List.dropWhile_append_of_pos hwhole,
    List.cons_append, List.takeWhile_cons_of_neg hpoint, List.dropWhile_cons_of_neg hpoint,
    List.append_nil, fraction, List.takeWhile_append_of_pos hfraction]
  cases more.takeWhile isDigit with
  | nil => exact .inl (by rw [List.append_nil])
  | cons d more =>
    refine .inr ?_
    simp [ofDigits, hne]

private theorem scansTo_lineComment {body : List Char} (hbody : '\n' ∉ body)
    (hstarts : body <+: rest) : ScansTo '/' ('/' :: rest) ⟨'/' :: '/' :: body, none⟩ := by
  obtain ⟨more, rfl⟩ := hstarts
  have hparts : ∀ d ∈ body, decide (d ≠ '\n') = true := by
    intro d hd
    rw [decide_eq_true_iff]
    rintro rfl
    exact hbody hd
  refine .inr ⟨_, scan_slash_slash, ?_⟩
  rw [List.takeWhile_append_of_pos hparts]
  cases more.takeWhile fun d => decide (d ≠ '\n') with
  | nil => exact .inl (by rw [List.append_nil])
  | cons d more => exact .inr (by simp)

private theorem scansTo_blockComment {body : List Char} (hbody : ¬['*', '/'] <:+: body ++ ['*'])
    (hstarts : body ++ ['*', '/'] <+: rest) :
    ScansTo '/' ('*' :: rest) ⟨'/' :: '*' :: (body ++ ['*', '/']), none⟩ := by
  obtain ⟨more, rfl⟩ := hstarts
  refine .of_eq ?_
  rw [List.append_assoc, scan_slash_star, List.cons_append, List.singleton_append,
    blockComment?_append hbody]

/-- The characters of a keyword are those of a word. -/
theorem isWord_of_mem_keywords {word : List Char} {kind : Kind}
    (hmem : (String.ofList word, kind) ∈ Kind.keywords) :
    ∃ c rest, word = c :: rest ∧ isWordStart c = true ∧ (∀ d ∈ rest, isWordPart d) ∧
      ofWord word = ⟨word, some (kind, .null)⟩ := by
  have hshape : ∀ entry ∈ Kind.keywords, Kind.ofWord entry.1 = entry.2 ∧
      entry.1.toList.head?.any isWordStart = true ∧
        entry.1.toList.tail.all isWordPart = true := by decide
  obtain ⟨hkind, hstart, hparts⟩ := hshape _ hmem
  dsimp only at hkind hstart hparts
  rw [String.toList_ofList] at hstart hparts
  cases word with
  | nil => cases hstart
  | cons c rest =>
    exact ⟨c, rest, rfl, hstart, List.all_eq_true.mp hparts, by rw [ofWord, hkind]⟩

/-- Of the lexemes at the front of a text, scanning finds one that is not shorter than any. -/
private theorem scansTo_of_isLexeme {l : Lexeme} (h : IsLexeme l) (hstarts : l.text <+: c :: rest) :
    ScansTo c rest l := by
  cases h with
  | space hspace =>
    obtain rfl := (List.cons_prefix_cons.mp hstarts).1
    exact .of_eq (scan_of_mem_spaces hspace)
  | lineComment hbody =>
    obtain ⟨rfl, more, rfl⟩ := List.cons_prefix_cons.mp hstarts
    exact scansTo_lineComment hbody (List.prefix_append _ _)
  | blockComment hbody =>
    obtain ⟨rfl, more, rfl⟩ := List.cons_prefix_cons.mp hstarts
    exact scansTo_blockComment hbody (List.prefix_append _ _)
  | operator hmem => exact scansTo_operator hmem hstarts
  | string hitems =>
    obtain ⟨rfl, more, rfl⟩ := List.cons_prefix_cons.mp hstarts
    refine .of_eq ?_
    rw [List.append_assoc, List.singleton_append, scan_string hitems]
    rfl
  | @integer digits hne hdigits =>
    cases digits with
    | nil => exact absurd rfl hne
    | cons d digits =>
      obtain ⟨rfl, hrest⟩ := List.cons_prefix_cons.mp hstarts
      have h := scansTo_integer hdigits hrest
      simpa [ofDigits] using h
  | @decimal whole digits hwhole hfraction hdigits =>
    cases whole with
    | nil => exact absurd rfl hwhole
    | cons d whole =>
      obtain ⟨rfl, hrest⟩ := List.cons_prefix_cons.mp hstarts
      have h := scansTo_decimal hdigits hfraction hrest
      simpa [ofDigits, hfraction] using h
  | keyword hmem =>
    obtain ⟨d, word, rfl, hstart, hparts, hword⟩ := isWord_of_mem_keywords hmem
    obtain ⟨rfl, hrest⟩ := List.cons_prefix_cons.mp hstarts
    rw [← hword]
    exact scansTo_ofWord hstart hparts hrest
  | @identifier d word hstart hparts hnot =>
    obtain ⟨rfl, hrest⟩ := List.cons_prefix_cons.mp hstarts
    have hlookup : Kind.keywords.lookup (String.ofList (d :: word)) = none := by
      cases hlookup : Kind.keywords.lookup (String.ofList (d :: word)) with
      | none => rfl
      | some kind => exact absurd (mem_of_lookup hlookup) (hnot kind)
    have hword : ofWord (d :: word) = ⟨d :: word, some (.identifier, .null)⟩ := by
      rw [ofWord, Kind.ofWord, hlookup]
      rfl
    rw [← hword]
    exact scansTo_ofWord hstart hparts hrest

/-- A text that opens a comment is refused. -/
private theorem not_opensComment_of_scan {l : Lexeme} (h : scan c rest = .ok l) :
    ¬OpensComment (c :: rest) := by
  rintro ⟨more, heq, hmore⟩
  cases heq
  rw [scan_slash_star] at h
  cases hcomment : blockComment? more with
  | none =>
    rw [hcomment] at h
    cases h
  | some comment =>
    obtain ⟨body, rfl, -, hstarts⟩ := blockComment?_eq_some hcomment
    exact hmore (List.IsInfix.trans (List.suffix_append _ _).isInfix hstarts.isInfix)

/-- Scanning takes the longest lexeme off a text that opens no comment. -/
theorem scan_eq_ok_iff {l : Lexeme} :
    scan c rest = .ok l ↔ l.IsLongest (c :: rest) ∧ ¬OpensComment (c :: rest) := by
  constructor
  · intro h
    obtain ⟨hlexeme, hstarts⟩ := isLexeme_of_scan h
    have hopens := not_opensComment_of_scan h
    refine ⟨⟨hlexeme, hstarts, fun other hother hother' => ?_⟩, hopens⟩
    obtain ⟨found, hfound, hle⟩ := (scansTo_of_isLexeme hother hother').resolve_left hopens
    rw [h] at hfound
    cases hfound
    rcases hle with rfl | hlt
    · exact Nat.le_refl _
    · exact Nat.le_of_lt hlt
  · rintro ⟨⟨hlexeme, hstarts, hlongest⟩, hopens⟩
    obtain ⟨found, hfound, hle⟩ := (scansTo_of_isLexeme hlexeme hstarts).resolve_left hopens
    obtain ⟨hfoundLexeme, hfoundPrefix⟩ := isLexeme_of_scan hfound
    have hfoundLe := hlongest found hfoundLexeme hfoundPrefix
    rcases hle with rfl | hlt
    · exact hfound
    · exact absurd hlt (Nat.not_lt_of_le hfoundLe)

/-- Scanning fails where a comment is opened or no lexeme starts. -/
theorem scan_eq_error_iff :
    (∃ fault, scan c rest = .error fault) ↔
      OpensComment (c :: rest) ∨ ∀ l, IsLexeme l → ¬l.text <+: c :: rest := by
  constructor
  · rintro ⟨fault, hfault⟩
    by_cases hopens : OpensComment (c :: rest)
    · exact .inl hopens
    · refine .inr fun l hlexeme hstarts => ?_
      obtain ⟨found, hfound, -⟩ := (scansTo_of_isLexeme hlexeme hstarts).resolve_left hopens
      rw [hfault] at hfound
      cases hfound
  · intro h
    cases hscan : scan c rest with
    | error fault => exact ⟨fault, rfl⟩
    | ok l =>
      obtain ⟨hlexeme, hstarts⟩ := isLexeme_of_scan hscan
      rcases h with hopens | hnone
      · exact absurd hopens (not_opensComment_of_scan hscan)
      · exact absurd hstarts (hnone l hlexeme)

end

end Lexeme

end Script
