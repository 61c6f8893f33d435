import Script.Proofs.Tree.Shape

/-!
# Trees are read from their texts

The text of a tree whose tokens are shown by their texts is that of no other tree, apart from trees
that differ in the places of their tokens. It may even have other text behind it, because a text
ends with its last parenthesis, or at the next blank if it is that of a leaf. So the parts of a tree
are told from each other one by one, and the head is told from the parts.

## Main definitions

* `Head.IsPlain` : the heads of trees of the grammar.

## Main results

* `Head.eq_of_append` : a head is told from what follows it.
* `Node.IsBuilt.eq_of_append` : a tree is told from what follows it, up to the places of its tokens.
-/

namespace Script

/-! ### Texts in parentheses -/

theorem toList_intercalate (text : String) (texts : List String) :
    (" ".intercalate (text :: texts)).toList = text.toList ++ spaced texts := by
  induction texts generalizing text with
  | nil => rw [String.intercalate_singleton, spaced, List.flatMap_nil, List.append_nil]
  | cons next texts ih =>
    rw [String.intercalate_cons_cons, String.toList_append, String.toList_append, ih, spaced_cons,
      List.append_assoc]
    rfl

theorem Node.toList_parenthesize (word : String) (texts : List String) :
    (parenthesize word texts).toList = '(' :: (word.toList ++ (spaced texts ++ [')'])) := by
  rw [parenthesize, String.toList_append, String.toList_append, toList_intercalate]
  simp

theorem spaced_append (texts others : List String) :
    spaced (texts ++ others) = spaced texts ++ spaced others :=
  List.flatMap_append

/-! ### Heads -/

namespace Form

/-- The forms whose heads have no names. -/
def bare : List Form :=
  [.ternary, .grouping, .call, .discard, .block, .branch, .loop, .result] ++
    (binaryOperators ++ logicalOperators ++ unaryOperators).map .sign

/-- The forms whose heads have one name. -/
def named : List Form :=
  [.assignment, .declaration] ++ stepOperators.map .stepAfter ++ stepOperators.map .stepBefore

/-- The forms of trees of the grammar. -/
def all : List Form :=
  bare ++ named ++ [.function]

theorem word_injOn {form form' : Form} (h : form ∈ all) (h' : form' ∈ all)
    (hword : form.word = form'.word) : form = form' := by
  have hall : ∀ form ∈ all, ∀ form' ∈ all, form.word = form'.word → form = form' := by
    decide +kernel
  exact hall form h form' h' hword

theorem notMem_breaks_word {form : Form} (h : form ∈ all) : ∀ c ∈ form.word.toList, c ∉ breaks := by
  have hall : ∀ form ∈ all, form.word.toList.all (fun c => decide (c ∉ breaks)) = true := by
    decide +kernel
  exact fun c hc => of_decide_eq_true (List.all_eq_true.mp (hall form h) c hc)

end Form

namespace Head

/-- The heads of trees of the grammar. -/
def IsPlain : Head → Prop
  | bare form => form ∈ Form.bare
  | named form name => form ∈ Form.named ∧ IsName name
  | function name params => IsName name ∧ ∀ param ∈ params, IsName param

variable {head head' : Head} {rest rest' : List Char}

theorem IsPlain.form_mem (h : head.IsPlain) : head.form ∈ Form.all := by
  cases head with
  | bare form => exact List.mem_append_left _ (List.mem_append_left _ h)
  | named form name => exact List.mem_append_left _ (List.mem_append_right _ h.1)
  | function name params => exact List.mem_append_right _ (List.mem_singleton.mpr rfl)

/-- A name is told from what follows it. -/
theorem eq_of_name {name name' : String} (h : IsName name) (h' : IsName name') (hrest : Stops rest)
    (hrest' : Stops rest') (heq : name.toList ++ rest = name'.toList ++ rest') :
    name = name' ∧ rest = rest' := by
  obtain ⟨hname, hrest⟩ := h.1.isAtom.eq h'.1.isAtom hrest hrest' heq
  exact ⟨String.toList_inj.mp hname, hrest⟩

/-- Names in parentheses are told from what follows them. -/
theorem eq_of_params {params params' : List String} (h : ∀ param ∈ params, IsName param)
    (h' : ∀ param ∈ params', IsName param)
    (heq : (" ".intercalate params).toList ++ ')' :: rest =
      (" ".intercalate params').toList ++ ')' :: rest') : params = params' ∧ rest = rest' := by
  have hempty (params : List String) (h : ∀ param ∈ params, IsName param) {rest rest' : List Char}
      (heq : ')' :: rest = (" ".intercalate params).toList ++ ')' :: rest') : params = [] := by
    cases params with
    | nil => rfl
    | cons param params =>
      rw [toList_intercalate, List.append_assoc] at heq
      exact absurd heq.symm ((h param List.mem_cons_self).1.isAtom.append_ne (by decide) _ _)
  cases params with
  | nil =>
    obtain rfl := hempty params' h' heq
    exact ⟨rfl, (List.cons.inj heq).2⟩
  | cons param params =>
    cases params' with
    | nil => cases hempty _ h heq.symm
    | cons param' params' =>
      have hspaced : spaced (param :: params) ++ ')' :: rest =
          spaced (param' :: params') ++ ')' :: rest' := by
        rw [toList_intercalate, toList_intercalate] at heq
        rw [spaced_cons, spaced_cons, List.cons_append, List.cons_append, heq]
      have hparams := eq_of_spaced_append id
        (R := fun param text => IsName param ∧ param = text)
        (S := fun param text => IsName param ∧ param = text)
        (fun ha hb hrest hrest' heq => by
          obtain ⟨ha, rfl⟩ := ha
          obtain ⟨hb, rfl⟩ := hb
          exact eq_of_name ha hb hrest hrest' heq)
        (List.forall₂_same.mpr fun param hparam => ⟨h param hparam, rfl⟩)
        (List.forall₂_same.mpr fun param hparam => ⟨h' param hparam, rfl⟩) hspaced
      rwa [List.map_id, List.map_id] at hparams

/-- A head is told from what follows it. -/
theorem eq_of_append (h : head.IsPlain) (h' : head'.IsPlain) (hrest : Stops rest)
    (hrest' : Stops rest')
    (heq : head.form.word.toList ++ (spaced head.names ++ rest) =
      head'.form.word.toList ++ (spaced head'.names ++ rest')) :
    head = head' ∧ rest = rest' := by
  have hbare : ∀ form ∈ Form.bare, form ∉ Form.named ∧ form ≠ .function := by decide
  have hnamed : ∀ form ∈ Form.named, form ≠ .function := by decide
  have hword : head.form.word = head'.form.word := by
    rw [← String.toList_inj,
      ← takeWhile_of_stops (Form.notMem_breaks_word h.form_mem) (hrest.spaced_append _), heq,
      takeWhile_of_stops (Form.notMem_breaks_word h'.form_mem) (hrest'.spaced_append _)]
  have hform := Form.word_injOn h.form_mem h'.form_mem hword
  rw [hword] at heq
  have hnames := List.append_cancel_left heq
  cases head with
  | bare form =>
    obtain rfl : form = head'.form := hform
    cases head' with
    | bare form' => exact ⟨rfl, hnames⟩
    | named form' name' => exact absurd h'.1 (hbare _ h).1
    | function name' params' => exact absurd rfl (hbare _ h).2
  | named form name =>
    obtain rfl : form = head'.form := hform
    cases head' with
    | bare form' => exact absurd h.1 (hbare _ h').1
    | named form' name' =>
      simp only [names, spaced, List.flatMap_cons, List.flatMap_nil, List.append_nil,
        List.cons_append, List.cons.injEq, true_and] at hnames
      obtain ⟨rfl, hrest⟩ := eq_of_name h.2 h'.2 hrest hrest' hnames
      exact ⟨rfl, hrest⟩
    | function name' params' => exact absurd rfl (hnamed _ h.1)
  | function name params =>
    cases head' with
    | bare form' => exact absurd hform.symm (hbare _ h').2
    | named form' name' => exact absurd hform.symm (hnamed _ h'.1)
    | function name' params' =>
      simp only [names, spaced, List.flatMap_cons, List.flatMap_nil, List.append_nil,
        List.cons_append, List.append_assoc, List.cons.injEq, true_and,
        String.toList_append] at hnames
      obtain ⟨rfl, hmore⟩ := eq_of_name h.1 h'.1 (stops_blank _) (stops_blank _) hnames
      obtain ⟨rfl, hrest⟩ := eq_of_params h.2 h'.2 (List.cons.inj (List.cons.inj hmore).2).2
      exact ⟨rfl, hrest⟩

end Head

/-! ### Trees -/

namespace Node

variable {node : Node}

theorem sign_mem_bare {kind : Kind}
    (h : kind ∈ binaryOperators ++ logicalOperators ++ unaryOperators) :
    Form.sign kind ∈ Form.bare :=
  List.mem_append_right _ (List.mem_map_of_mem h)

/-- The head of a tree of the grammar is plain. -/
theorem isPlain_of_head? {head : Head} (htokens : node.HasTokens Token.IsPlain)
    (hhead : node.head? = some head) : head.IsPlain := by
  cases node with
  | literal | reference | unknownExpression | unknownStatement => cases hhead
  | ternary | grouping | discard | loop | block | branch | call | result =>
    cases hhead
    exact List.mem_append_left _ (by decide)
  | binary left operator right =>
    cases hhead
    exact sign_mem_bare (List.mem_append_left _ (List.mem_append_left _ htokens.2))
  | logical left operator right =>
    cases hhead
    exact sign_mem_bare (List.mem_append_left _ (List.mem_append_right _ htokens.2))
  | unary operator right =>
    cases hhead
    exact sign_mem_bare (List.mem_append_right _ htokens.2)
  | assignment | declaration =>
    cases hhead
    exact ⟨by decide, htokens.of_identifier.1⟩
  | stepAfter name operator =>
    cases hhead
    refine ⟨List.mem_append_left _ (List.mem_append_right _ ?_), htokens.1.of_identifier.1⟩
    exact List.mem_map_of_mem htokens.2.2
  | stepBefore name operator =>
    cases hhead
    refine ⟨List.mem_append_right _ ?_, htokens.1.of_identifier.1⟩
    exact List.mem_map_of_mem htokens.2.2
  | function name params body =>
    cases hhead
    refine ⟨htokens.1.of_identifier.1, fun text htext => ?_⟩
    obtain ⟨param, hparam, rfl⟩ := List.mem_map.mp htext
    exact (htokens.2 param hparam).of_identifier.1

theorem isLeaf_of_keyword {word : String} {kind : Kind} (h : (word, kind) ∈ Kind.keywords) :
    (ofWord word).IsLeaf word := by
  rw [← String.ofList_toList (s := word)] at h
  obtain ⟨c, rest, hword, hstart, hparts, -⟩ := Lexeme.isWord_of_mem_keywords h
  exact .word ⟨c, rest, hword, hstart, hparts⟩

theorem isLeaf_null : (literal .null).IsLeaf (Constant.render .null) :=
  isLeaf_of_keyword (by decide : ("null", Kind.nullWord) ∈ Kind.keywords)

theorem isLeaf_bool (b : Bool) : (literal (.bool b)).IsLeaf (Constant.render (.bool b)) := by
  cases b with
  | false => exact isLeaf_of_keyword (by decide : ("false", Kind.falseWord) ∈ Kind.keywords)
  | true => exact isLeaf_of_keyword (by decide : ("true", Kind.trueWord) ∈ Kind.keywords)

/-- A constant of a source text is shown as a leaf. -/
theorem isLeaf_of_constant? {token : Token} {value : Constant} (htoken : token.IsPlain)
    (hvalue : token.constant? = some value) : (literal value).IsLeaf value.render := by
  have hliteral (hkind : token.kind = .number ∨ token.kind = .string) :
      (literal token.literal).IsLeaf token.literal.render := by
    generalize token.literal = value, htoken.isPlain_literal hkind = hplain
    cases hplain with
    | number hx => exact .number hx
    | text hs => exact .text hs
  rw [Token.constant?] at hvalue
  split at hvalue
  · cases hvalue
    exact isLeaf_bool false
  · cases hvalue
    exact isLeaf_bool true
  · cases hvalue
    exact isLeaf_null
  · next hkind =>
    cases hvalue
    exact hliteral (.inl hkind)
  · next hkind =>
    cases hvalue
    exact hliteral (.inr hkind)
  · cases hvalue

/-- A leaf is shown as one. -/
theorem isLeaf_of_head? {depth : Nat} {text : String} (htokens : node.HasTokens Token.IsPlain)
    (hhead : node.head? = none) (htext : node.render (depth + 3) = .ok text) :
    (node.relocate .forget).IsLeaf text := by
  cases node with
  | literal value =>
    cases htext
    rcases htokens with ⟨token, htoken, hvalue⟩ | rfl
    · exact isLeaf_of_constant? htoken hvalue
    · exact isLeaf_bool true
  | reference name =>
    cases htext
    obtain ⟨hname, hforget⟩ := htokens.of_identifier
    rw [relocate, hforget, ← ofWord_of_isName hname]
    exact .word hname.1
  | unknownExpression | unknownStatement => cases htokens
  | _ => cases hhead

theorem forall₂_of_mapM {α β ε : Type} {f : α → Except ε β} {as : List α} {bs : List β}
    (h : as.mapM f = .ok bs) : List.Forall₂ (fun a b => f a = .ok b) as bs := by
  induction as generalizing bs with
  | nil =>
    cases h
    exact .nil
  | cons a as ih =>
    rw [List.mapM_cons] at h
    cases ha : f a with
    | error => rw [ha] at h; cases h
    | ok b =>
      cases has : as.mapM f with
      | error => rw [ha, has] at h; cases h
      | ok bs' =>
        rw [ha, has] at h
        cases h
        exact .cons ha (ih has)

theorem exists_depth {depth : Nat} {text : String} (h : node.render depth = .ok text) :
    ∃ inner, depth = inner + 3 := by
  match depth with
  | 0 | 1 | 2 => cases node <;> cases h
  | inner + 3 => exact ⟨inner, rfl⟩

/-- The text of a tree with a head is that of the head and those of the parts, in parentheses. -/
theorem exists_texts {head : Head} {depth : Nat} {text : String}
    (htokens : node.HasTokens Token.IsPlain) (hhead : node.head? = some head)
    (htext : node.render (depth + 3) = .ok text) :
    ∃ texts, List.Forall₂ (fun part text => part.render depth = .ok text) node.parts texts ∧
      ∀ rest, text.toList ++ rest = '(' :: (head.form.word.toList ++
        (spaced head.names ++ (spaced texts ++ ')' :: rest))) := by
  rw [render_of_head? htokens hhead] at htext
  cases htexts : node.parts.mapM (render depth) with
  | error => rw [htexts] at htext; cases htext
  | ok texts =>
    rw [htexts] at htext
    cases htext
    refine ⟨texts, forall₂_of_mapM htexts, fun rest => ?_⟩
    rw [toList_parenthesize, spaced_append]
    simp only [List.cons_append, List.append_assoc, List.nil_append]

theorem eq_of_forall₂ {α β : Type} {R S : α → β → Prop} {as : List α} {bs cs : List β}
    (hunique : ∀ {a b c}, R a b → S a c → b = c) (hbs : List.Forall₂ R as bs)
    (hcs : List.Forall₂ S as cs) : bs = cs := by
  induction hbs generalizing cs with
  | nil =>
    cases hcs
    rfl
  | cons hb _ ih =>
    cases hcs with
    | cons hc hcs => rw [hunique hb hc, ih hcs]

/-- The text of a tree does not depend on how deep trees may be. -/
theorem IsBuilt.text_unique {depth depth' : Nat} {s t : String} (h : node.IsBuilt Token.IsPlain)
    (hs : node.render depth = .ok s) (ht : node.render depth' = .ok t) : s = t := by
  induction depth using Nat.strongRecOn generalizing node depth' s t with
  | ind depth ih =>
    obtain ⟨inner, rfl⟩ := exists_depth hs
    obtain ⟨inner', rfl⟩ := exists_depth ht
    obtain ⟨htokens, hparts⟩ := h
    cases hhead : node.head? with
    | none =>
      cases node with
      | literal | reference =>
        cases hs
        cases ht
        rfl
      | unknownExpression | unknownStatement => cases hs
      | _ => cases hhead
    | some head =>
      obtain ⟨texts, htexts, hs⟩ := exists_texts htokens hhead hs
      obtain ⟨texts', htexts', ht⟩ := exists_texts htokens hhead ht
      obtain rfl := eq_of_forall₂ (fun hs ht => ih inner (by omega) hs.1 hs.2 ht)
        ((List.forall₂_and_left _ _).mpr ⟨hparts, htexts⟩) htexts'
      rw [← String.toList_inj, ← List.append_nil s.toList, hs, ← ht, List.append_nil]

/-- A tree is told from what follows it, up to the places of its tokens. -/
theorem IsBuilt.eq_of_append {a b : Node} {depth depth' : Nat} {s t : String}
    {rest rest' : List Char} (ha : a.IsBuilt Token.IsPlain) (hb : b.IsBuilt Token.IsPlain)
    (hs : a.render depth = .ok s) (ht : b.render depth' = .ok t) (hrest : Stops rest)
    (hrest' : Stops rest') (heq : s.toList ++ rest = t.toList ++ rest') :
    a.relocate .forget = b.relocate .forget ∧ rest = rest' := by
  induction depth using Nat.strongRecOn generalizing a b depth' s t rest rest' with
  | ind depth ih =>
    obtain ⟨inner, rfl⟩ := exists_depth hs
    obtain ⟨inner', rfl⟩ := exists_depth ht
    obtain ⟨htokens, hparts⟩ := ha
    obtain ⟨htokens', hparts'⟩ := hb
    cases hhead : a.head? with
    | none =>
      have hleaf := isLeaf_of_head? htokens hhead hs
      cases hhead' : b.head? with
      | none =>
        have hleaf' := isLeaf_of_head? htokens' hhead' ht
        obtain ⟨htext, hrest⟩ := hleaf.isAtom.eq hleaf'.isAtom hrest hrest' heq
        rw [String.toList_inj.mp htext] at hleaf
        exact ⟨hleaf.unique hleaf', hrest⟩
      | some head' =>
        obtain ⟨texts', -, htext'⟩ := exists_texts htokens' hhead' ht
        rw [htext'] at heq
        exact absurd heq (hleaf.isAtom.append_ne (by decide) _ _)
    | some head =>
      obtain ⟨texts, htexts, htext⟩ := exists_texts htokens hhead hs
      cases hhead' : b.head? with
      | none =>
        have hleaf' := isLeaf_of_head? htokens' hhead' ht
        rw [htext] at heq
        exact absurd heq.symm (hleaf'.isAtom.append_ne (by decide) _ _)
      | some head' =>
        obtain ⟨texts', htexts', htext'⟩ := exists_texts htokens' hhead' ht
        rw [htext, htext'] at heq
        obtain ⟨rfl, hspaced⟩ := Head.eq_of_append (isPlain_of_head? htokens hhead)
          (isPlain_of_head? htokens' hhead') ((stops_close rest).spaced_append texts)
          ((stops_close rest').spaced_append texts') (List.cons.inj heq).2
        obtain ⟨hviews, hrest⟩ := eq_of_spaced_append (relocate .forget)
          (fun ha hb hrest hrest' heq => ih inner (by omega) ha.1 hb.1 ha.2 hb.2 hrest hrest' heq)
          ((List.forall₂_and_left _ _).mpr ⟨hparts, htexts⟩)
          ((List.forall₂_and_left _ _).mpr ⟨hparts', htexts'⟩) hspaced
        rw [forget_eq_assemble htokens hhead, forget_eq_assemble htokens' hhead', hviews]
        exact ⟨rfl, hrest⟩

end Node

end Script
