import Stencil.Proofs.Printing

/-!
# How printed forms begin

A printed form is followed by the end, a blank, a comma or a closing bracket, or by the
opening bracket of a subscript, and by nothing else. So a name that is printed can be
told from the rest, and whether it is called. The first characters of a text then tell the kind of
the form that has it (`Form.lead_chars`), if there are no constants and the names of the
parameters are words of their own (`Legible`). Such a name may still be a keyword or the name of a
builtin: behind `(if ` or `(let ` stands an operand if the word is a keyword and an
operator if it is a parameter (`Form.Lead.ofCompound_operand`).
-/

namespace Stencil

/-- A letter, a digit, `_` or `$`: what names, keywords and numbers are made of. Beyond
ASCII every character counts as a letter. -/
def wordChar (c : Char) : Bool := c.isAlphanum || c == '_' || c == '$' || decide (128 ≤ c.toNat)

/-- What the text of an operand begins with, and what never follows on one, subscripts
apart. -/
def opens (c : Char) : Bool := wordChar c || c == '(' || c == '['

/-- What would make a name longer, or a call of it. -/
def clings (c : Char) : Bool := wordChar c || c == '('

/-- The names of the parameters are words, no two the same, and none is printed like a slot. -/
structure Legible (params : List Param) : Prop where
  word : ∀ p ∈ params, p.name ≠ "" ∧ ∀ c ∈ p.name.toList, wordChar c = true
  slot : ∀ p ∈ params, ∀ n : Nat, p.name ≠ "l" ++ toString n
  distinct : (params.map Param.name).Nodup

/-! ### Where a run of characters stops -/

/-- The text does not go on with such a character. -/
def Stops (p : Char → Bool) (cs : List Char) : Prop := ∀ c ∈ cs.head?, p c = false

theorem stops_nil (p : Char → Bool) : Stops p [] := by
  intro c hc
  cases hc

theorem stops_cons {p : Char → Bool} {c : Char} {cs : List Char} :
    Stops p (c :: cs) ↔ p c = false := by
  simp [Stops]

/-- A run of characters is cut off in one way, if what follows does not go on with one. -/
theorem append_inj_of_stops {p : Char → Bool} {u v r s : List Char} (hu : ∀ c ∈ u, p c = true)
    (hv : ∀ c ∈ v, p c = true) (hr : Stops p r) (hs : Stops p s) (h : u ++ r = v ++ s) :
    u = v ∧ r = s := by
  induction u generalizing v with
  | nil =>
    cases v with
    | nil => exact ⟨rfl, h⟩
    | cons d v =>
      obtain rfl : r = d :: (v ++ s) := h
      have hd := hv d List.mem_cons_self
      rw [stops_cons.mp hr] at hd
      cases hd
  | cons c u ih =>
    cases v with
    | nil =>
      obtain rfl : c :: (u ++ r) = s := h
      have hc := hu c List.mem_cons_self
      rw [stops_cons.mp hs] at hc
      cases hc
    | cons d v =>
      obtain ⟨rfl, htail⟩ := List.cons.inj h
      obtain ⟨rfl, hrest⟩ := ih (fun c hc => hu c (List.mem_cons_of_mem _ hc))
        (fun c hc => hv c (List.mem_cons_of_mem _ hc)) htail
      exact ⟨rfl, hrest⟩

theorem Stops.of_clings {cs : List Char} (h : Stops clings cs) : Stops wordChar cs := by
  intro c hc
  have hclings := h c hc
  simp only [clings, Bool.or_eq_false_iff] at hclings
  exact hclings.1

theorem Stops.of_opens {cs : List Char} (h : Stops opens cs) : Stops clings cs := by
  intro c hc
  have hopens := h c hc
  simp only [opens, Bool.or_eq_false_iff] at hopens
  simp [clings, hopens.1]

theorem Stops.not_called {cs : List Char} (h : Stops clings cs) :
    (cs.head? == some '(') = false := by
  cases cs with
  | nil => rfl
  | cons c cs =>
    have hclings := stops_cons.mp h
    simp only [clings, Bool.or_eq_false_iff] at hclings
    simpa using hclings.2

/-! ### Slots, operators and builtins -/

theorem isDigit_of_mem_slot {n : Nat} {c : Char} (h : c ∈ (toString n).toList) :
    c.isDigit = true := by
  rw [Nat.toString_eq_ofList_toDigits, String.toList_ofList] at h
  exact Nat.isDigit_of_mem_toDigits (by decide) (by decide) h

theorem wordChar_slot {n : Nat} : ∀ c ∈ (toString n).toList, wordChar c = true := by
  intro c hc
  simp [wordChar, Char.isAlphanum, isDigit_of_mem_slot hc]

theorem slot_inj {m n : Nat} (h : (toString m).toList = (toString n).toList) : m = n := by
  have hdigits : Nat.toDigits 10 m = Nat.toDigits 10 n := by
    simpa [Nat.toString_eq_ofList_toDigits] using h
  rw [← Nat.ofDigitChars_ten_toDigits (n := m), hdigits, Nat.ofDigitChars_ten_toDigits]

theorem wordChar_slotName {n : Nat} : ∀ c ∈ 'l' :: (toString n).toList, wordChar c = true := by
  intro c hc
  rcases List.mem_cons.mp hc with rfl | hc
  · rfl
  · exact wordChar_slot c hc

theorem BinaryOp.not_opens_symbol (op : BinaryOp) :
    ∃ c ∈ op.symbol.toList.head?, opens c = false := by
  cases op <;> exact ⟨_, rfl, rfl⟩

theorem BinaryOp.ofSymbol?_symbol (op : BinaryOp) : ofSymbol? op.symbol = some op := by
  cases op <;> decide

theorem BinaryOp.symbol_no_blank (op : BinaryOp) :
    ∀ c ∈ op.symbol.toList, (c != ' ') = true := by
  rw [← List.all_eq_true]
  cases op <;> rfl

/-- The blank behind an operator shows where it ends. -/
theorem BinaryOp.symbol_cut {op op' : BinaryOp} {r s : List Char}
    (h : op.symbol.toList ++ ' ' :: r = op'.symbol.toList ++ ' ' :: s) : op = op' ∧ r = s := by
  obtain ⟨hsymbol, hrest⟩ := append_inj_of_stops op.symbol_no_blank op'.symbol_no_blank
    (stops_cons.mpr rfl) (stops_cons.mpr rfl) h
  have hop := congrArg ofSymbol? (String.toList_inj.mp hsymbol)
  rw [ofSymbol?_symbol, ofSymbol?_symbol] at hop
  exact ⟨Option.some.inj hop, (List.cons.inj hrest).2⟩

theorem UnaryOp.symbol_cut {op op' : UnaryOp} {r s : List Char}
    (h : op.symbol.toList ++ r = op'.symbol.toList ++ s) : op = op' ∧ r = s := by
  cases op <;> cases op' <;> simp_all [symbol]

theorem Builtin.wordChar_text (f : Builtin) : ∀ c ∈ f.text.toList, wordChar c = true := by
  rw [← List.all_eq_true]
  cases f <;> rfl

theorem Builtin.text_ne_nil (f : Builtin) : f.text.toList ≠ [] := by
  cases f <;> decide

theorem Builtin.ofText?_text (f : Builtin) : ofText? f.text = some f := by
  cases f <;> decide

/-! ### Characters -/

namespace Form

variable (params : List Param)

/-- The characters of the printed form. -/
def chars (f : Form Value) : List Char := (f.text params.toArray).toList

/-- The characters of printed items, with commas between them. -/
def charsAll (fs : List (Form Value)) : List Char :=
  (", ".intercalate (texts params.toArray fs)).toList

theorem charsAll_nil : charsAll params [] = [] := by
  simp [charsAll, texts]

/-- The characters of the items behind the first one. -/
def charsRest (fs : List (Form Value)) : List Char :=
  fs.flatMap fun f => ',' :: ' ' :: f.chars params

theorem charsAll_cons (x : Form Value) (xs : List (Form Value)) :
    charsAll params (x :: xs) = x.chars params ++ charsRest params xs := by
  induction xs generalizing x with
  | nil => simp [charsAll, charsRest, texts, chars]
  | cons y ys ih =>
    have h := ih y
    simp only [charsAll, texts] at h ⊢
    rw [String.intercalate_cons_cons, String.toList_append, String.toList_append, h]
    simp [chars, charsRest]

theorem chars_unary (t : Ty) (op : UnaryOp) (x : Form Value) : (unary t op x).chars params =
    '(' :: (op.symbol.toList ++ (x.chars params ++ [')'])) := by
  simp [chars, text]

theorem chars_binary (t : Ty) (op : BinaryOp) (l r : Form Value) :
    (binary t op l r).chars params =
      '(' :: (l.chars params ++ ' ' :: (op.symbol.toList ++ ' ' :: (r.chars params ++ [')']))) := by
  simp [chars, text]

theorem chars_ite (t : Ty) (c x y : Form Value) : (ite t c x y).chars params =
    '(' :: ("if ".toList ++ (c.chars params ++ ' ' :: ("then ".toList ++ (x.chars params ++
      ' ' :: ("else ".toList ++ (y.chars params ++ [')'])))))) := by
  simp [chars, text]

theorem chars_letIn (t : Ty) (slot : Nat) (i b : Form Value) : (letIn t slot i b).chars params =
    '(' :: ("let l".toList ++ ((toString slot).toList ++ ' ' :: ("= ".toList ++ (i.chars params ++
      ' ' :: ("in ".toList ++ (b.chars params ++ [')'])))))) := by
  simp [chars, text]

theorem chars_list (t : Ty) (xs : List (Form Value)) : (list t xs).chars params =
    '[' :: (charsAll params xs ++ [']']) := by
  simp [chars, charsAll, text]

theorem chars_index (t : Ty) (r i : Form Value) : (index t r i).chars params =
    r.chars params ++ '[' :: (i.chars params ++ [']']) := by
  simp [chars, text]

theorem chars_call (t : Ty) (f : Builtin) (xs : List (Form Value)) :
    (call t f xs).chars params = f.text.toList ++ '(' :: (charsAll params xs ++ [')']) := by
  simp [chars, charsAll, text]

theorem chars_localVar (t : Ty) (slot : Nat) : (localVar t slot).chars params =
    'l' :: (toString slot).toList := by
  simp [chars, text]

theorem paramText_toArray {i : Nat} (h : i < params.length) :
    paramText params.toArray i = params[i].name := by
  simp [paramText, h]

theorem chars_param {i : Nat} (h : i < params.length) (t : Ty) :
    (param t i).chars params = params[i].name.toList := by
  rw [chars, text, paramText_toArray params h]

mutual

/-- There are no constants, and every parameter is declared. -/
def Clear (arity : Nat) : Form Value → Prop
  | const _ _ => False
  | param _ i => i < arity
  | localVar _ _ => True
  | unary _ _ x => x.Clear arity
  | binary _ _ x y | letIn _ _ x y | index _ x y => x.Clear arity ∧ y.Clear arity
  | ite _ c x y => c.Clear arity ∧ x.Clear arity ∧ y.Clear arity
  | list _ xs | call _ _ xs => AllClear arity xs

def AllClear (arity : Nat) : List (Form Value) → Prop
  | [] => True
  | x :: xs => x.Clear arity ∧ AllClear arity xs

end

mutual

/-- A proper form without constants is clear. -/
theorem Proper.clear {arity : Nat} : (f : Form Value) → {scope : List Nat} →
    f.Proper arity scope → f.consts = [] → f.Clear arity
  | const _ _, _, _, h => by simp [consts] at h
  | param _ _, _, hp, _ => hp
  | localVar _ _, _, _, _ => trivial
  | unary _ _ x, _, hp, h => Proper.clear x hp h
  | binary _ _ x y, _, hp, h | letIn _ _ x y, _, hp, h | index _ x y, _, hp, h => by
    obtain ⟨hx, hy⟩ := List.append_eq_nil_iff.mp h
    exact ⟨Proper.clear x hp.1 hx, Proper.clear y hp.2 hy⟩
  | ite _ c x y, _, hp, h => by
    simp only [consts, List.append_eq_nil_iff] at h
    obtain ⟨hc, hx, hy⟩ := h
    exact ⟨Proper.clear c hp.1 hc, Proper.clear x hp.2.1 hx, Proper.clear y hp.2.2 hy⟩
  | list _ xs, _, hp, h | call _ _ xs, _, hp, h => AllProper.clear xs hp h

theorem AllProper.clear {arity : Nat} : (fs : List (Form Value)) → {scope : List Nat} →
    AllProper arity scope fs → constsAll fs = [] → AllClear arity fs
  | [], _, _, _ => trivial
  | x :: xs, _, hp, h => by
    obtain ⟨hx, hxs⟩ := List.append_eq_nil_iff.mp h
    exact ⟨Proper.clear x hp.1 hx, AllProper.clear xs hp.2 hxs⟩

end

/-! ### Beginnings -/

/-- A text begins with a word, perhaps an empty one, and goes on with a bracket if at all. -/
structure Begins (cs : List Char) (w t : List Char) : Prop where
  eq : cs = w ++ t
  ne_nil : cs ≠ []
  word : ∀ c ∈ w, wordChar c = true
  bracket : ∀ c ∈ t.head?, c = '(' ∨ c = '['

theorem Begins.exists_cons {cs w t : List Char} (h : Begins cs w t) :
    ∃ c rest, cs = c :: rest ∧ opens c = true := by
  obtain ⟨rfl, hne, hw, ht⟩ := h
  cases w with
  | cons c w => exact ⟨c, w ++ t, rfl, by simp [opens, hw c List.mem_cons_self]⟩
  | nil =>
    cases t with
    | nil => exact absurd rfl hne
    | cons c t =>
      refine ⟨c, t, rfl, ?_⟩
      rcases ht c rfl with rfl | rfl <;> rfl

theorem Begins.of_bracket {cs t : List Char} {c : Char} (h : cs = c :: t)
    (hc : c = '(' ∨ c = '[') : Begins cs [] (c :: t) where
  eq := h
  ne_nil := by simp [h]
  word := by simp
  bracket := by simpa using hc

variable {params}

/-- The text of every form without constants begins so. -/
theorem exists_begins (hp : Legible params) : (f : Form Value) → f.Clear params.length →
    ∃ w t, Begins (f.chars params) w t
  | const _ _, h => h.elim
  | param t i, h => by
    obtain ⟨hne, hword⟩ := hp.word params[i] (List.getElem_mem h)
    refine ⟨params[i].name.toList, [], ?_, ?_, hword, by simp⟩
    · rw [chars_param params h, List.append_nil]
    · rw [chars_param params h]
      exact fun hnil => hne (String.toList_eq_nil_iff.mp hnil)
  | localVar t slot, _ => by
    refine ⟨'l' :: (toString slot).toList, [], ?_, ?_, ?_, by simp⟩
    · rw [chars_localVar, List.append_nil]
    · simp [chars_localVar]
    · exact wordChar_slotName
  | unary t op x, _ => ⟨_, _, .of_bracket (chars_unary params t op x) (.inl rfl)⟩
  | binary t op l r, _ => ⟨_, _, .of_bracket (chars_binary params t op l r) (.inl rfl)⟩
  | ite t c x y, _ => ⟨_, _, .of_bracket (chars_ite params t c x y) (.inl rfl)⟩
  | letIn t slot i b, _ => ⟨_, _, .of_bracket (chars_letIn params t slot i b) (.inl rfl)⟩
  | list t xs, _ => ⟨_, _, .of_bracket (chars_list params t xs) (.inr rfl)⟩
  | call t f xs, _ => ⟨f.text.toList, _, chars_call params t f xs, by simp [chars_call],
      f.wordChar_text, by simp⟩
  | index t r i, h => by
    obtain ⟨w, u, hb⟩ := exists_begins hp r h.1
    refine ⟨w, u ++ '[' :: (i.chars params ++ [']']), ?_, by simp [chars_index], hb.word, ?_⟩
    · rw [chars_index, hb.eq, List.append_assoc]
    · cases u with
      | nil => simp
      | cons c u => exact hb.bracket

/-! ### What the beginning tells -/

/-- What can be told from the beginning of a text: the kind of the form, and the name if it
begins with one. -/
inductive Lead where
  | list | unary | binary | ite | letIn
  | word (w : List Char) (isCall : Bool)
deriving DecidableEq

/-- What can be told behind a parenthesis. A keyword is followed by an operand, a parameter
with the same name by an operator. -/
def Lead.ofCompound : List Char → Lead
  | '-' :: _ | '!' :: _ => .unary
  | 'i' :: 'f' :: ' ' :: c :: _ => if opens c then .ite else .binary
  | 'l' :: 'e' :: 't' :: ' ' :: c :: _ => if opens c then .letIn else .binary
  | _ => .binary

/-- What can be told from a text. -/
def Lead.of : List Char → Lead
  | '[' :: _ => .list
  | '(' :: cs => ofCompound cs
  | cs => .word (cs.takeWhile wordChar) ((cs.dropWhile wordChar).head? == some '(')

/-- A word tells whether it is called. -/
theorem Lead.of_word {w r : List Char} (hw : ∀ c ∈ w, wordChar c = true) (hne : w ≠ [])
    (hr : Stops wordChar r) : Lead.of (w ++ r) = .word w (r.head? == some '(') := by
  have htake : (w ++ r).takeWhile wordChar = w ∧ (w ++ r).dropWhile wordChar = r := by
    rw [List.takeWhile_append_of_pos hw, List.dropWhile_append_of_pos hw]
    cases r with
    | nil => simp
    | cons c r => simp [stops_cons.mp hr]
  cases w with
  | nil => exact absurd rfl hne
  | cons c w =>
    have hc := hw c List.mem_cons_self
    rw [List.cons_append] at htake ⊢
    unfold Lead.of
    split
    · rename_i heq
      cases heq
      cases hc
    · rename_i heq
      cases heq
      cases hc
    · rw [htake.1, htake.2]

/-- An operand with an operator behind it is not taken for a keyword. -/
theorem Lead.ofCompound_operand {cs w t sym : List Char} (h : Begins cs w t)
    (hsym : ∃ c ∈ sym.head?, opens c = false) (rest : List Char) :
    Lead.ofCompound (cs ++ ' ' :: (sym ++ rest)) = .binary := by
  -- what looks like a keyword before a blank is the whole operand
  have hkeyword : ∀ k c tail, (∀ d ∈ k, wordChar d = true) →
      cs ++ ' ' :: (sym ++ rest) = k ++ ' ' :: c :: tail → opens c = false := by
    intro k c tail hk heq
    rw [h.eq, List.append_assoc] at heq
    have hstops : Stops wordChar (t ++ ' ' :: (sym ++ rest)) := by
      cases t with
      | nil => exact stops_cons.mpr rfl
      | cons d t => rcases h.bracket d rfl with rfl | rfl <;> exact stops_cons.mpr rfl
    obtain ⟨rfl, hrest⟩ := append_inj_of_stops h.word hk hstops (stops_cons.mpr rfl) heq
    cases t with
    | cons d t =>
      obtain ⟨rfl, -⟩ := List.cons.inj hrest
      rcases h.bracket ' ' rfl with h | h <;> cases h
    | nil =>
      obtain ⟨d, hd, hopens⟩ := hsym
      cases sym with
      | nil => cases hd
      | cons e sym =>
        cases hd
        obtain ⟨rfl, -⟩ := List.cons.inj (List.cons.inj hrest).2
        exact hopens
  obtain ⟨c, tail, rfl, hc⟩ := h.exists_cons
  generalize hall : c :: tail ++ ' ' :: (sym ++ rest) = all at hkeyword
  unfold Lead.ofCompound
  split
  · cases hall
    cases hc
  · cases hall
    cases hc
  · rw [hkeyword "if".toList _ _ (List.all_eq_true.mp rfl) rfl, if_neg Bool.false_ne_true]
  · rw [hkeyword "let".toList _ _ (List.all_eq_true.mp rfl) rfl, if_neg Bool.false_ne_true]
  · rfl

variable (params) in
/-- How the text of a form begins. A subscript stands behind what it is applied to. -/
def lead : Form Value → Lead
  | const _ v => .word v.text.toList false
  | param _ i => .word (paramText params.toArray i).toList false
  | localVar _ slot => .word ('l' :: (toString slot).toList) false
  | unary _ _ _ => .unary
  | binary _ _ _ _ => .binary
  | ite _ _ _ _ => .ite
  | letIn _ _ _ _ => .letIn
  | list _ _ => .list
  | index _ r _ => r.lead
  | call _ f _ => .word f.text.toList true

/-- A text tells how its form begins, unless a name before it would be taken for a longer one
or for that of a builtin. -/
theorem lead_chars (hp : Legible params) : (f : Form Value) → f.Clear params.length →
    ∀ r, Stops clings r → Lead.of (f.chars params ++ r) = f.lead params
  | const _ _, h, _, _ => h.elim
  | param t i, h, r, hr => by
    obtain ⟨hne, hword⟩ := hp.word params[i] (List.getElem_mem h)
    rw [chars_param params h, Lead.of_word hword (by simpa using hne) hr.of_clings,
      hr.not_called, lead, paramText_toArray params h]
  | localVar t slot, h, r, hr => by
    rw [chars_localVar, Lead.of_word wordChar_slotName (List.cons_ne_nil _ _) hr.of_clings,
      hr.not_called, lead]
  | unary t op x, h, r, hr => by
    rw [chars_unary]
    cases op <;> rfl
  | binary t op x y, h, r, hr => by
    obtain ⟨w, u, hb⟩ := exists_begins hp x h.1
    have hof := Lead.ofCompound_operand hb op.not_opens_symbol (' ' :: (y.chars params ++ ')' :: r))
    rw [chars_binary, lead]
    simpa [Lead.of] using hof
  | ite t c x y, h, r, hr => by
    obtain ⟨w, u, hb⟩ := exists_begins hp c h.1
    obtain ⟨d, rest, hd, hopens⟩ := hb.exists_cons
    rw [chars_ite, hd]
    show (if opens d then Lead.ite else Lead.binary) = Lead.ite
    rw [if_pos hopens]
  | letIn t slot i b, h, r, hr => by
    rw [chars_letIn]
    rfl
  | list t xs, h, r, hr => by
    rw [chars_list]
    rfl
  | call t f xs, h, r, hr => by
    rw [chars_call, List.append_assoc, List.cons_append,
      Lead.of_word f.wordChar_text f.text_ne_nil (stops_cons.mpr rfl), lead]
    rfl
  | index t x i, h, r, hr => by
    rw [chars_index, List.append_assoc, lead]
    exact lead_chars hp x h.1 _ (stops_cons.mpr rfl)

end Form

end Stencil
