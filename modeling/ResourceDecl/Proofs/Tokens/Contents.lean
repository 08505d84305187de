import ResourceDecl.Token.Quote

/-!
# Contents of strings

`IsContent` describes what may stand between the quotes of a string on one line. Nothing is
decoded, so the reader gives back exactly what it has read:

* `readContent_complete`: a content in front of a quote is read, and nothing behind the quote.
* `readContent_sound`: what is read is a content, and a quote stands behind it.
* `isContent_mark_append`: the mark of a sort key is plain text.
-/

namespace ResourceDecl

/-- What may stand between the quotes of a string: plain characters, and backslashes that escape
the character behind them. -/
inductive IsContent : List Char → Prop
  | nil : IsContent []
  | plain {c : Char} {content : List Char} :
      c ≠ '"' → c ≠ '\\' → c ≠ '\n' → IsContent content → IsContent (c :: content)
  | escaped {c : Char} {content : List Char} :
      c ≠ '\r' → c ≠ '\n' → IsContent content → IsContent ('\\' :: c :: content)

theorem IsContent.not_mem_newline {content : List Char} (h : IsContent content) :
    '\n' ∉ content := by
  induction h with
  | nil => exact List.not_mem_nil
  | plain _ _ hc _ ih => simp [hc.symm, ih]
  | escaped _ hc _ ih => simp [hc.symm, ih]

/-! ## The reader -/

theorem readContent_plain {c : Char} (hquote : c ≠ '"') (hslash : c ≠ '\\') (hline : c ≠ '\n')
    (done rest : List Char) : readContent done (c :: rest) = readContent (c :: done) rest := by
  rw [readContent]
  · exact hline
  · exact hquote
  · intro h
    exact absurd h hslash
  · intro _ _ h
    exact absurd h hslash

theorem readContent_complete {content : List Char} (h : IsContent content)
    (done rest : List Char) :
    readContent done (content ++ '"' :: rest) = (.ok (done.reverse ++ content), rest) := by
  induction h generalizing done with
  | nil => simp [readContent]
  | plain hquote hslash hline _ ih =>
    rw [List.cons_append, readContent_plain hquote hslash hline, ih]
    simp
  | escaped hreturn hline _ ih =>
    simp only [List.cons_append, readContent, hline, hreturn, or_self, if_false]
    rw [ih]
    simp

theorem readContent_sound {done text content rest : List Char}
    (h : readContent done text = (.ok content, rest)) :
    ∃ body, IsContent body ∧ content = done.reverse ++ body ∧ text = body ++ '"' :: rest := by
  fun_induction readContent done text with
  | case1 => cases h
  | case2 => cases h
  | case3 =>
    cases h
    exact ⟨[], .nil, by simp, rfl⟩
  | case4 => cases h
  | case5 => cases h
  | case6 done c text hstop ih =>
    obtain ⟨hline, hreturn⟩ := not_or.mp hstop
    obtain ⟨body, hbody, rfl, rfl⟩ := ih h
    exact ⟨'\\' :: c :: body, .escaped hreturn hline hbody, by simp, rfl⟩
  | case7 done c text hline hquote hlast hslash ih =>
    have hplain : c ≠ '\\' := by
      rintro rfl
      cases text with
      | nil => exact hlast rfl rfl
      | cons d text => exact hslash d text rfl rfl
    obtain ⟨body, hbody, rfl, rfl⟩ := ih h
    exact ⟨c :: body, .plain hquote hplain hline hbody, by simp, rfl⟩

/-! ## Sort keys -/

theorem isContent_append_iff {text : List Char}
    (h : ∀ c ∈ text, c ≠ '"' ∧ c ≠ '\\' ∧ c ≠ '\n') (content : List Char) :
    IsContent (text ++ content) ↔ IsContent content := by
  induction text with
  | nil => rfl
  | cons c text ih =>
    obtain ⟨⟨hquote, hslash, hline⟩, htext⟩ := List.forall_mem_cons.mp h
    rw [List.cons_append, ← ih htext]
    constructor
    · intro hcons
      generalize text ++ content = rest at hcons ⊢
      cases hcons with
      | plain _ _ _ hrest => exact hrest
      | escaped => exact absurd rfl hslash
    · exact .plain hquote hslash hline

theorem isContent_mark_append {key : List Char} :
    IsContent (sortKeyMark.toList ++ key) ↔ IsContent key :=
  isContent_append_iff (by simp [sortKeyMark]) key

namespace TokenKind

theorem ofContent_mark_append {key : String} (h : key ≠ "") :
    ofContent (sortKeyMark ++ key).toList = .sortKey key := by
  have hdrop : (sortKeyMark ++ key).toList.drop sortKeyMark.length = key.toList := by
    rw [String.toList_append, ← String.length_toList, List.drop_left]
  have hmark : sortKeyMark.toList <+: (sortKeyMark ++ key).toList := by
    rw [String.toList_append]
    exact List.prefix_append _ _
  have hne : key.toList ≠ [] := by simpa using h
  simp only [ofContent, hdrop]
  rw [if_pos ⟨hmark, hne⟩, String.ofList_toList]

/-- A string is told apart once and for all: its content names a sort order, or it does not. -/
theorem ofContent_cases (content : List Char) :
    ofContent content = .string (String.ofList content) ∨
      ∃ key, ofContent content = .sortKey key ∧ key ≠ "" ∧
        content = sortKeyMark.toList ++ key.toList := by
  unfold ofContent
  by_cases h : sortKeyMark.toList <+: content ∧ content.drop sortKeyMark.length ≠ []
  · refine .inr ⟨String.ofList (content.drop sortKeyMark.length), if_pos h, ?_, ?_⟩
    · have hne := h.2
      simpa [← String.toList_inj] using hne
    · have happend := List.prefix_iff_eq_append.mp h.1
      rw [String.length_toList] at happend
      rw [String.toList_ofList, happend]
  · exact .inl (if_neg h)

/-- A string is a sort key if something follows the mark. -/
theorem exists_ofContent_eq_sortKey_iff {content : List Char} :
    (∃ key, ofContent content = .sortKey key) ↔
      ∃ c key, content = sortKeyMark.toList ++ c :: key := by
  constructor
  · rintro ⟨key, h⟩
    rcases ofContent_cases content with heq | ⟨other, -, hne, hcontent⟩
    · rw [heq] at h
      cases h
    · obtain ⟨c, rest, hother⟩ := List.exists_cons_of_ne_nil (l := other.toList) (by simpa using hne)
      exact ⟨c, rest, by rw [hcontent, hother]⟩
  · rintro ⟨c, key, rfl⟩
    have hkey : String.ofList (c :: key) ≠ "" := by simp [← String.toList_inj]
    have hmark := ofContent_mark_append hkey
    rw [String.toList_append, String.toList_ofList] at hmark
    exact ⟨_, hmark⟩

end TokenKind

end ResourceDecl
