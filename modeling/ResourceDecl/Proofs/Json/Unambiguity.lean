import Mathlib.Data.List.Basic
import ResourceDecl.Proofs.Tokens.Numerals
import ResourceDecl.Text.Json

/-!
# JSON texts determine their values

Two values with one text in the same layout are equal (`text_inj`). Every text that stands in
another one is told apart from what follows it: a string ends at its first bare quote
(`stringText_append_inj`), a number in front of anything but a digit, a list of entries in front of
anything but a comma (`entriesText_append_inj`). The first character of a text announces the kind
of its value, so values of different kinds never have one text.
-/

namespace ResourceDecl.Text.Json

/-! ## Strings -/

/-- The characters that have a letter of their own, and the letters. -/
def letterEscapes : List (Char × Char) :=
  [('"', '"'), ('\\', '\\'), ('\x08', 'b'), ('\x0c', 'f'), ('\n', 'n'), ('\r', 'r'), ('\t', 't')]

/-- How a character may stand in a string. -/
inductive Escapes (c : Char) : List Char → Prop
  | plain : c ≠ '"' → c ≠ '\\' → Escapes c [c]
  | letter {letter : Char} : (c, letter) ∈ letterEscapes → Escapes c ['\\', letter]
  | control : c.toNat < 0x20 → Escapes c (controlEscape c)

theorem escapes_escapeChar (c : Char) : Escapes c (escapeChar c) := by
  unfold escapeChar
  split_ifs with hquote hbackslash hb hf hn hr ht hcontrol
  · exact .letter (by simp [hquote, letterEscapes])
  · exact .letter (by simp [hbackslash, letterEscapes])
  · exact .letter (by simp [hb, letterEscapes])
  · exact .letter (by simp [hf, letterEscapes])
  · exact .letter (by simp [hn, letterEscapes])
  · exact .letter (by simp [hr, letterEscapes])
  · exact .letter (by simp [ht, letterEscapes])
  · exact .control hcontrol
  · exact .plain hquote hbackslash

theorem digitChar_inj : ∀ m < 16, ∀ n < 16, Nat.digitChar m = Nat.digitChar n → m = n := by
  decide

theorem letterEscapes_inj : ∀ p ∈ letterEscapes, ∀ q ∈ letterEscapes, p.2 = q.2 → p.1 = q.1 := by
  decide

theorem letter_ne_of_mem : ∀ p ∈ letterEscapes, p.2 ≠ 'u' := by
  decide

/-- The escapes form a prefix code. -/
theorem Escapes.append_inj {c d : Char} {escape other rest next : List Char}
    (hc : Escapes c escape) (hd : Escapes d other) (h : escape ++ rest = other ++ next) :
    c = d ∧ rest = next := by
  cases hc with
  | plain hquote hbackslash =>
    cases hd with
    | plain => simpa using h
    | letter => exact absurd (List.cons.inj h).1 hbackslash
    | control => exact absurd (List.cons.inj h).1 hbackslash
  | @letter a ha =>
    cases hd with
    | plain hquote hbackslash => exact absurd (List.cons.inj h).1.symm hbackslash
    | @letter b hb =>
      obtain ⟨hletter, hrest⟩ : a = b ∧ rest = next := by simpa using h
      exact ⟨letterEscapes_inj _ ha _ hb hletter, hrest⟩
    | control =>
      obtain ⟨hletter, -⟩ : a = 'u' ∧ _ := by simpa [controlEscape] using h
      exact absurd hletter (letter_ne_of_mem _ ha)
  | control hlt =>
    cases hd with
    | plain hquote hbackslash => exact absurd (List.cons.inj h).1.symm hbackslash
    | @letter b hb =>
      obtain ⟨hletter, -⟩ : 'u' = b ∧ _ := by simpa [controlEscape] using h
      exact absurd hletter.symm (letter_ne_of_mem _ hb)
    | control hlt' =>
      obtain ⟨hhigh, hlow, hrest⟩ : (c.toNat / 16).digitChar = (d.toNat / 16).digitChar ∧
          (c.toNat % 16).digitChar = (d.toNat % 16).digitChar ∧ rest = next := by
        simpa [controlEscape] using h
      have hquotient := digitChar_inj _ (by omega) _ (by omega) hhigh
      have hremainder := digitChar_inj _ (by omega) _ (by omega) hlow
      exact ⟨Char.toNat_inj.mp (by omega), hrest⟩

theorem Escapes.ne_quote {c : Char} {escape rest next : List Char} (h : Escapes c escape) :
    escape ++ rest ≠ '"' :: next := by
  cases h with
  | plain hquote => exact fun heq => hquote (List.cons.inj heq).1
  | letter => simp
  | control => simp [controlEscape]

theorem escaped_append_inj {content other rest next : List Char}
    (h : content.flatMap escapeChar ++ '"' :: rest = other.flatMap escapeChar ++ '"' :: next) :
    content = other ∧ rest = next := by
  induction content generalizing other with
  | nil =>
    cases other with
    | nil => exact ⟨rfl, (List.cons.inj h).2⟩
    | cons d other =>
      rw [List.flatMap_cons, List.append_assoc] at h
      exact absurd h.symm (escapes_escapeChar d).ne_quote
  | cons c content ih =>
    rw [List.flatMap_cons, List.append_assoc] at h
    cases other with
    | nil => exact absurd h (escapes_escapeChar c).ne_quote
    | cons d other =>
      rw [List.flatMap_cons, List.append_assoc] at h
      obtain ⟨rfl, htail⟩ := (escapes_escapeChar c).append_inj (escapes_escapeChar d) h
      obtain ⟨rfl, hrest⟩ := ih htail
      exact ⟨rfl, hrest⟩

theorem toList_stringText (text : String) :
    (stringText text).toList = '"' :: (text.toList.flatMap escapeChar ++ ['"']) := by
  simp [stringText]

theorem stringText_append_inj {text other : String} {rest next : List Char}
    (h : (stringText text).toList ++ rest = (stringText other).toList ++ next) :
    text = other ∧ rest = next := by
  rw [toList_stringText, toList_stringText] at h
  obtain ⟨hcontent, hrest⟩ := escaped_append_inj (by simpa using h)
  exact ⟨String.toList_inj.mp hcontent, hrest⟩

/-! ## Lists of entries -/

section Entries

variable {α : Type}

/-- In front of anything but a digit the text of `x` is told apart from that of any other value, and
from what follows it. -/
def TellsApart (entry : α → List Char) (x : α) : Prop :=
  ∀ (y : α) (rest next : List Char), StopsAt isDigitOrSeparator rest →
    StopsAt isDigitOrSeparator next → entry x ++ rest = entry y ++ next → x = y ∧ rest = next

/-- The character goes on with a number or with a list of entries. -/
def goesOn (c : Char) : Bool :=
  isDigitOrSeparator c || c == ','

theorem stopsAt_digit {rest : List Char} (h : StopsAt goesOn rest) :
    StopsAt isDigitOrSeparator rest := by
  intro c hc
  exact (Bool.or_eq_false_iff.mp (h c hc)).1

theorem stopsAt_comma (rest : List Char) : StopsAt isDigitOrSeparator (',' :: rest) :=
  stopsAt_cons.mpr (by decide)

theorem ne_comma {rest next : List Char} (h : StopsAt goesOn rest) : rest ≠ ',' :: next := by
  rintro rfl
  exact absurd (stopsAt_cons.mp h) (by decide)

/-- Entries with commas between them, each behind the same lead. -/
def entriesText (lead : List Char) (entry : α → List Char) : List α → List Char
  | [] => []
  | [x] => lead ++ entry x
  | x :: y :: entries => lead ++ entry x ++ ',' :: entriesText lead entry (y :: entries)

/-- Entries up to their closing bracket, which stands alone behind an empty list and behind a lead
of its own otherwise. -/
def enclosedText (lead : List Char) (entry : α → List Char) (closing : List Char) (close : Char) :
    List α → List Char
  | [] => [close]
  | x :: entries => entriesText lead entry (x :: entries) ++ closing ++ [close]

variable {lead : List Char} {entry : α → List Char}

theorem entriesText_append_inj {entries others : List α} {rest next : List Char}
    (hentry : ∀ x ∈ entries, TellsApart entry x) (hne : entries ≠ []) (hothers : others ≠ [])
    (hrest : StopsAt goesOn rest) (hnext : StopsAt goesOn next)
    (h : entriesText lead entry entries ++ rest = entriesText lead entry others ++ next) :
    entries = others ∧ rest = next := by
  induction entries generalizing others with
  | nil => exact absurd rfl hne
  | cons x entries ih =>
    obtain ⟨hx, hentries⟩ := List.forall_mem_cons.mp hentry
    match entries, others with
    | [], [y] =>
      simp only [entriesText, List.append_assoc, List.append_cancel_left_eq] at h
      obtain ⟨rfl, hend⟩ := hx y _ _ (stopsAt_digit hrest) (stopsAt_digit hnext) h
      exact ⟨rfl, hend⟩
    | [], y :: _ :: _ =>
      simp only [entriesText, List.append_assoc, List.append_cancel_left_eq, List.cons_append] at h
      exact absurd (hx y _ _ (stopsAt_digit hrest) (stopsAt_comma _) h).2 (ne_comma hrest)
    | _ :: _, [y] =>
      simp only [entriesText, List.append_assoc, List.append_cancel_left_eq, List.cons_append] at h
      exact absurd (hx y _ _ (stopsAt_comma _) (stopsAt_digit hnext) h).2.symm (ne_comma hnext)
    | x' :: entries, y :: y' :: others =>
      simp only [entriesText, List.append_assoc, List.append_cancel_left_eq, List.cons_append] at h
      obtain ⟨rfl, hmore⟩ := hx y _ _ (stopsAt_comma _) (stopsAt_comma _) h
      obtain ⟨hsame, hend⟩ := ih hentries (List.cons_ne_nil _ _) (List.cons_ne_nil _ _)
        (List.cons.inj hmore).2
      rw [hsame]
      exact ⟨rfl, hend⟩

theorem exists_entriesText_eq (lead : List Char) (entry : α → List Char) (x : α)
    (entries : List α) :
    ∃ tail, entriesText lead entry (x :: entries) = lead ++ entry x ++ tail := by
  cases entries with
  | nil => exact ⟨[], by simp [entriesText]⟩
  | cons y entries => exact ⟨_, rfl⟩

theorem enclosedText_append_inj {closing : List Char} {close : Char} {entries others : List α}
    {rest next : List Char} (hentry : ∀ x ∈ entries, TellsApart entry x)
    (hclosing : ∀ tail, StopsAt goesOn (closing ++ close :: tail))
    (hopen : ∀ x tail text, lead ++ entry x ++ tail ≠ close :: text)
    (h : enclosedText lead entry closing close entries ++ rest =
      enclosedText lead entry closing close others ++ next) : entries = others ∧ rest = next := by
  have hcons (x : α) (entries : List α) (rest text : List Char) :
      enclosedText lead entry closing close (x :: entries) ++ rest ≠ close :: text := by
    obtain ⟨tail, htail⟩ := exists_entriesText_eq lead entry x entries
    rw [enclosedText, htail, List.append_assoc, List.append_assoc, List.append_assoc (lead ++ _)]
    exact hopen x _ text
  match entries, others with
  | [], [] => exact ⟨rfl, (List.cons.inj h).2⟩
  | [], y :: others => exact absurd h.symm (hcons y others next rest)
  | x :: entries, [] => exact absurd h (hcons x entries rest next)
  | x :: entries, y :: others =>
    simp only [enclosedText, List.append_assoc, List.singleton_append] at h
    obtain ⟨hsame, hend⟩ := entriesText_append_inj hentry (List.cons_ne_nil _ _)
      (List.cons_ne_nil _ _) (hclosing rest) (hclosing next) h
    exact ⟨hsame, (List.cons.inj (List.append_cancel_left hend)).2⟩

end Entries

/-! ## Values -/

/-- The kinds of values. -/
inductive Kind
  | null
  | number
  | string
  | array
  | object

/-- The kind of a value. -/
def kind : Json → Kind
  | null => .null
  | number _ => .number
  | string _ => .string
  | array _ => .array
  | object _ => .object

/-- The kind of value whose text starts with the character. -/
def announced (c : Char) : Kind :=
  if c = 'n' then .null
  else if c = '"' then .string
  else if c = '[' then .array
  else if c = '\x7b' then .object
  else .number

theorem toList_itemsText (style : Style) (depth : Nat) (items : List Json) :
    (itemsText style depth items).toList = entriesText (style.lineBreak depth).toList
      (fun item => (item.textAt style depth).toList) items := by
  induction items with
  | nil => rfl
  | cons item items ih =>
    cases items with
    | nil => simp [itemsText, entriesText]
    | cons other items => simp [itemsText, entriesText, ih]

/-- The text of a member. -/
def memberText (style : Style) (depth : Nat) (member : String × Json) : List Char :=
  (stringText member.1).toList ++ style.colon.toList ++ (member.2.textAt style depth).toList

theorem toList_membersText (style : Style) (depth : Nat) (members : List (String × Json)) :
    (membersText style depth members).toList =
      entriesText (style.lineBreak depth).toList (memberText style depth) members := by
  induction members with
  | nil => rfl
  | cons member members ih =>
    obtain ⟨key, value⟩ := member
    cases members with
    | nil => simp [membersText, entriesText, memberText]
    | cons other members => simp [membersText, entriesText, memberText, ih]

theorem toList_textAt_array (style : Style) (depth : Nat) (items : List Json) :
    ((array items).textAt style depth).toList = '[' ::
      enclosedText (style.lineBreak (depth + 1)).toList
        (fun item => (item.textAt style (depth + 1)).toList) (style.lineBreak depth).toList ']'
        items := by
  cases items with
  | nil => simp [textAt, enclosedText]
  | cons item items => simp [textAt, enclosedText, toList_itemsText]

theorem toList_textAt_object (style : Style) (depth : Nat) (members : List (String × Json)) :
    ((object members).textAt style depth).toList = '\x7b' ::
      enclosedText (style.lineBreak (depth + 1)).toList (memberText style (depth + 1))
        (style.lineBreak depth).toList '\x7d' members := by
  cases members with
  | nil => simp [textAt, enclosedText]
  | cons member members => simp [textAt, enclosedText, toList_membersText]

/-- A text starts with a character that announces its kind, and not with a closing bracket. -/
theorem exists_textAt_eq_cons (style : Style) (depth : Nat) (v : Json) :
    ∃ c text, (v.textAt style depth).toList = c :: text ∧ announced c = v.kind ∧ c ≠ ']' := by
  cases v with
  | null => exact ⟨'n', ['u', 'l', 'l'], by simp [textAt], rfl, by decide⟩
  | number value =>
    obtain ⟨c, text, htext, hstart⟩ := exists_toString_eq_cons value
    have hc := hstart []
    have hn : c ≠ 'n' := hc.ne (by decide) (by decide)
    have hquote : c ≠ '"' := hc.ne (by decide) (by decide)
    have hbracket : c ≠ '[' := hc.ne (by decide) (by decide)
    have hbrace : c ≠ '\x7b' := hc.ne (by decide) (by decide)
    refine ⟨c, text, by rw [textAt, htext], ?_, hc.ne (by decide) (by decide)⟩
    simp [announced, hn, hquote, hbracket, hbrace, kind]
  | string text => exact ⟨'"', _, by rw [textAt, toList_stringText], rfl, by decide⟩
  | array items => exact ⟨'[', _, toList_textAt_array style depth items, rfl, by decide⟩
  | object members => exact ⟨'\x7b', _, toList_textAt_object style depth members, rfl, by decide⟩

theorem stopsAt_lineBreak {close : Char} (h : goesOn close = false) (style : Style) (depth : Nat)
    (tail : List Char) : StopsAt goesOn ((style.lineBreak depth).toList ++ close :: tail) := by
  cases style with
  | compact => exact stopsAt_cons.mpr h
  | pretty =>
    rw [Style.lineBreak, String.toList_append]
    exact stopsAt_cons.mpr (by decide)

/-- Behind the lead of an entry, or in front of it, there is no closing bracket. -/
theorem lineBreak_append_ne {c close : Char} (hc : c ≠ close) (hnewline : close ≠ '\n')
    (style : Style) (depth : Nat) (text tail : List Char) :
    (style.lineBreak depth).toList ++ c :: text ≠ close :: tail := by
  cases style with
  | compact => exact fun h => hc (List.cons.inj h).1
  | pretty =>
    rw [Style.lineBreak, String.toList_append]
    exact fun h => hnewline (List.cons.inj h).1.symm

/-- What holds of a list or an object if it holds of the values in it holds of every value. -/
@[elab_as_elim]
theorem induction {motive : Json → Prop} (null : motive null)
    (number : ∀ value, motive (number value)) (string : ∀ text, motive (string text))
    (array : ∀ items, (∀ item ∈ items, motive item) → motive (array items))
    (object : ∀ members, (∀ member ∈ members, motive member.2) → motive (object members))
    (v : Json) : motive v :=
  match v with
  | .null => null
  | .number value => number value
  | .string text => string text
  | .array items => array items fun item _ => induction null number string array object item
  | .object members =>
    object members fun member _ => induction null number string array object member.2
termination_by sizeOf v
decreasing_by
  · rename_i hm
    have := List.sizeOf_lt_of_mem hm
    simp only [Json.array.sizeOf_spec]
    omega
  · rename_i hm
    have := List.sizeOf_lt_of_mem hm
    obtain ⟨key, value⟩ := member
    simp only [Json.object.sizeOf_spec, Prod.mk.sizeOf_spec] at this ⊢
    omega

theorem tellsApart_memberText (style : Style) (depth : Nat) {member : String × Json}
    (h : TellsApart (fun v : Json => (v.textAt style depth).toList) member.2) :
    TellsApart (memberText style depth) member := by
  obtain ⟨key, value⟩ := member
  rintro ⟨key', value'⟩ rest next hrest hnext heq
  simp only [memberText, List.append_assoc] at heq
  obtain ⟨rfl, hbehind⟩ := stringText_append_inj heq
  obtain ⟨hvalue, hend⟩ := h value' rest next hrest hnext (List.append_cancel_left hbehind)
  exact ⟨congrArg _ hvalue, hend⟩

theorem kind_eq_of_append_eq {style : Style} {depth : Nat} {v w : Json} {rest next : List Char}
    (h : (v.textAt style depth).toList ++ rest = (w.textAt style depth).toList ++ next) :
    v.kind = w.kind := by
  obtain ⟨c, text, hv, hc, -⟩ := exists_textAt_eq_cons style depth v
  obtain ⟨d, other, hw, hd, -⟩ := exists_textAt_eq_cons style depth w
  rw [hv, hw] at h
  rw [← hc, ← hd, (List.cons.inj h).1]

/-- In front of anything but a digit the text of a value is told apart from what follows it. -/
theorem tellsApart_textAt (style : Style) (v : Json) (depth : Nat) :
    TellsApart (fun v : Json => (v.textAt style depth).toList) v := by
  induction v using induction generalizing depth with
  | null =>
    intro w rest next _ _ h
    have hkind := kind_eq_of_append_eq h
    cases w with
    | null => exact ⟨rfl, List.append_cancel_left h⟩
    | _ => cases hkind
  | number value =>
    intro w rest next hrest hnext h
    have hkind := kind_eq_of_append_eq h
    cases w with
    | number other =>
      simp only [textAt] at h
      obtain ⟨rfl, hend⟩ := toString_append_inj hrest hnext h
      exact ⟨rfl, hend⟩
    | _ => cases hkind
  | string text =>
    intro w rest next _ _ h
    have hkind := kind_eq_of_append_eq h
    cases w with
    | string other =>
      simp only [textAt] at h
      obtain ⟨rfl, hend⟩ := stringText_append_inj h
      exact ⟨rfl, hend⟩
    | _ => cases hkind
  | array items ih =>
    intro w rest next _ _ h
    have hkind := kind_eq_of_append_eq h
    cases w with
    | array others =>
      simp only [toList_textAt_array, List.cons_append] at h
      obtain ⟨rfl, hend⟩ := enclosedText_append_inj (fun item hm => ih item hm (depth + 1))
        (stopsAt_lineBreak (by decide) style depth)
        (fun item tail text => by
          obtain ⟨c, body, hitem, -, hc⟩ := exists_textAt_eq_cons style (depth + 1) item
          rw [hitem, List.append_assoc]
          exact lineBreak_append_ne hc (by decide) style (depth + 1) _ text)
        (List.cons.inj h).2
      exact ⟨rfl, hend⟩
    | _ => cases hkind
  | object members ih =>
    intro w rest next _ _ h
    have hkind := kind_eq_of_append_eq h
    cases w with
    | object others =>
      simp only [toList_textAt_object, List.cons_append] at h
      obtain ⟨rfl, hend⟩ := enclosedText_append_inj
        (fun member hm => tellsApart_memberText style (depth + 1) (ih member hm (depth + 1)))
        (stopsAt_lineBreak (by decide) style depth)
        (fun member tail text => by
          rw [memberText, toList_stringText, List.append_assoc]
          exact lineBreak_append_ne (by decide) (by decide) style (depth + 1) _ text)
        (List.cons.inj h).2
      exact ⟨rfl, hend⟩
    | _ => cases hkind

theorem text_inj {style : Style} {v w : Json} : v.text style = w.text style ↔ v = w := by
  constructor
  · intro h
    have hnil : StopsAt isDigitOrSeparator [] := by simp [StopsAt]
    have htext : (v.textAt style 0).toList ++ [] = (w.textAt style 0).toList ++ [] :=
      congrArg (fun text : String => text.toList ++ []) h
    exact (tellsApart_textAt style v 0 w [] [] hnil hnil htext).1
  · rintro rfl
    rfl

end ResourceDecl.Text.Json
