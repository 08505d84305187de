import Mathlib.Data.List.TakeWhile
import ResourceDecl.Proofs.Grammar.Derivation

/-!
# Readers and the grammar

Each reader of fields is matched with the relation that describes it. A reader never fails to find
fields that the grammar sees, and finds no others:

* `value?_eq_ok_some_iff`: the value of a token.
* `takeField_sound`, `takeField_one`, `takeField_strings`: the field that stands next.
* `takeRequired_sound`, `takeRequired_complete`: the required fields.
* `takeChain_sound`, `takeChain_complete`: a chain, together with the reason why it stops.
* `isTmxPath_iff`, `announcedForm?_eq_some_iff`: the form of a map.

A list of strings takes all strings that follow, so completeness asks that no position is one; the
only shape with a list is treated in `Greed`.
-/

namespace ResourceDecl

open Text

/-! ## Results -/

theorem bind_eq_ok_iff {ε α β : Type} {x : Except ε α} {f : α → Except ε β} {b : β} :
    (x >>= f) = .ok b ↔ ∃ a, x = .ok a ∧ f a = .ok b := by
  cases x <;> simp [bind, Except.bind]

theorem mapM_eq_ok_iff {ε α β : Type} {f : α → Except ε β} {xs : List α} {ys : List β} :
    xs.mapM f = .ok ys ↔ List.Forall₂ (fun x y => f x = .ok y) xs ys := by
  induction xs generalizing ys with
  | nil => simp [pure, Except.pure, eq_comm]
  | cons x xs ih =>
    rw [List.mapM_cons, bind_eq_ok_iff]
    constructor
    · rintro ⟨y, hy, h⟩
      obtain ⟨ys', hys, h⟩ := bind_eq_ok_iff.mp h
      cases h
      exact .cons hy (ih.mp hys)
    · rintro (_ | ⟨hy, hys⟩)
      exact ⟨_, hy, bind_eq_ok_iff.mpr ⟨_, ih.mpr hys, rfl⟩⟩

/-! ## Values -/

theorem intOf_eq_ok_iff {numeral : String} {value : Int} :
    intOf numeral = .ok value ↔ readInt64 numeral = some value := by
  rw [intOf]
  cases readInt64 numeral <;> simp

theorem mapM_intOf_eq_ok_iff {numerals : List String} {values : List Int} :
    numerals.mapM intOf = .ok values ↔
      List.Forall₂ (fun numeral value => readInt64 numeral = some value) numerals values := by
  simp only [mapM_eq_ok_iff, intOf_eq_ok_iff]

theorem mapM_mapM_intOf_eq_ok_iff {rows : List (List String)} {values : List (List Int)} :
    (rows.mapM fun numerals => numerals.mapM intOf) = .ok values ↔
      List.Forall₂ (List.Forall₂ fun numeral value => readInt64 numeral = some value)
        rows values := by
  simp only [mapM_eq_ok_iff, intOf_eq_ok_iff]

theorem Vocabulary.lookup_eq_some_iff {v : Vocabulary} {word spelling : String} :
    v.lookup word = some spelling ↔ word ∈ v ∧ word = spelling := by
  rw [lookup]
  split <;> simp_all

theorem FieldClass.accepts_of_value? {accepts : FieldClass} {kind : TokenKind}
    {value : FieldValue} (h : accepts.value? kind = .ok (some value)) :
    accepts.Accepts kind value := by
  unfold FieldClass.value? at h
  split at h
  · cases h
    exact .ident _
  · cases h
    exact .reference _
  · cases h
    exact .str rfl
  · cases h
    exact .quotedReference rfl
  · cases h
    exact .str rfl
  · cases h
    exact .quotedReference rfl
  · cases h
    exact .sortKey _
  · obtain ⟨n, hn, h⟩ := bind_eq_ok_iff.mp h
    cases h
    exact .int (intOf_eq_ok_iff.mp hn)
  · obtain ⟨n, hn, h⟩ := bind_eq_ok_iff.mp h
    cases h
    exact .time (intOf_eq_ok_iff.mp hn)
  · obtain ⟨n, hn, h⟩ := bind_eq_ok_iff.mp h
    cases h
    exact .tiles (intOf_eq_ok_iff.mp hn)
  · obtain ⟨n, hn, h⟩ := bind_eq_ok_iff.mp h
    cases h
    exact .size _ (intOf_eq_ok_iff.mp hn)
  · obtain ⟨values, hv, h⟩ := bind_eq_ok_iff.mp h
    cases h
    exact .times (mapM_intOf_eq_ok_iff.mp hv)
  · obtain ⟨rows, hv, h⟩ := bind_eq_ok_iff.mp h
    cases h
    exact .timeRows (mapM_mapM_intOf_eq_ok_iff.mp hv)
  · simp only [Except.ok.injEq, Option.map_eq_some_iff, Option.bind_eq_some_iff] at h
    obtain ⟨word, ⟨spelling, hs, hl⟩, rfl⟩ := h
    obtain ⟨hm, rfl⟩ := Vocabulary.lookup_eq_some_iff.mp hl
    exact .choice hs hm
  · cases h

theorem FieldClass.value?_of_accepts {accepts : FieldClass} {kind : TokenKind}
    {value : FieldValue} (h : accepts.Accepts kind value) :
    accepts.value? kind = .ok (some value) := by
  have content {kind : TokenKind} {content : String} (hc : kind.content? = some content) :
      kind = .string content ∨ ∃ key, kind = .sortKey key ∧ content = sortKeyMark ++ key := by
    unfold TokenKind.content? at hc
    split at hc <;> simp_all
  cases h with
  | ident | reference | sortKey => rfl
  | str hc => obtain rfl | ⟨key, rfl, rfl⟩ := content hc <;> rfl
  | quotedReference hc => obtain rfl | ⟨key, rfl, rfl⟩ := content hc <;> rfl
  | int hn | time hn => exact bind_eq_ok_iff.mpr ⟨_, intOf_eq_ok_iff.mpr hn, rfl⟩
  | tiles hn | size _ hn => exact bind_eq_ok_iff.mpr ⟨_, intOf_eq_ok_iff.mpr hn, rfl⟩
  | times hv => exact bind_eq_ok_iff.mpr ⟨_, mapM_intOf_eq_ok_iff.mpr hv, rfl⟩
  | timeRows hv => exact bind_eq_ok_iff.mpr ⟨_, mapM_mapM_intOf_eq_ok_iff.mpr hv, rfl⟩
  | choice hw hm =>
    simp [FieldClass.value?, hw, Vocabulary.lookup_eq_some_iff.mpr ⟨hm, rfl⟩]

theorem FieldClass.value?_eq_ok_some_iff {accepts : FieldClass} {kind : TokenKind}
    {value : FieldValue} :
    accepts.value? kind = .ok (some value) ↔ accepts.Accepts kind value :=
  ⟨accepts_of_value?, value?_of_accepts⟩

/-! ## The field that stands next -/

/-- Strings and their contents, as `takeStrings` finds them. -/
theorem forall₂_content?_iff {tokens : List Token} {contents : List String} :
    List.Forall₂ (fun (token : Token) content => token.kind.content? = some content)
        tokens contents ↔
      (∀ token ∈ tokens, token.isString) ∧
        (tokens.filterMap fun token => token.kind.content?) = contents := by
  induction tokens generalizing contents with
  | nil =>
    constructor
    · rintro ⟨⟩
      simp
    · rintro ⟨-, rfl⟩
      exact .nil
  | cons token tokens ih =>
    constructor
    · rintro (_ | ⟨hc, htail⟩)
      obtain ⟨hall, rfl⟩ := ih.mp htail
      have ht : token.isString := by simp [Token.isString, hc]
      exact ⟨List.forall_mem_cons.mpr ⟨ht, hall⟩, by simp only [List.filterMap_cons, hc]⟩
    · rintro ⟨hall, rfl⟩
      obtain ⟨content, hc⟩ := Option.isSome_iff_exists.mp (hall token List.mem_cons_self)
      simp only [List.filterMap_cons, hc]
      exact .cons hc (ih.mpr ⟨fun t ht => hall t (List.mem_cons_of_mem _ ht), rfl⟩)

theorem takeStrings_sound {field : FieldName} {tokens rest : List Token} {taken : Field}
    (h : takeStrings field tokens = some (taken, rest)) :
    ∃ head, tokens = head ++ rest ∧ FieldSpec.Takes ⟨field, .strs⟩ head taken := by
  have hsplit := List.takeWhile_append_dropWhile (p := Token.isString) (l := tokens)
  have hall := List.all_takeWhile (p := Token.isString) (l := tokens)
  unfold takeStrings at h
  split at h
  · cases h
  · rename_i first more heq
    cases h
    rw [heq] at hsplit hall
    exact ⟨first :: more, hsplit.symm,
      .strings rfl (forall₂_content?_iff.mpr ⟨List.all_eq_true.mp hall, rfl⟩)⟩

theorem takeField_sound {spec : FieldSpec} {tokens rest : List Token} {field : Field}
    (h : takeField spec tokens = .ok (some (field, rest))) :
    ∃ head, tokens = head ++ rest ∧ spec.Takes head field := by
  obtain ⟨fieldName, accepts⟩ := spec
  unfold takeField at h
  split at h
  · rename_i hs
    cases hs
    exact takeStrings_sound (Except.ok.inj h)
  · split at h
    · cases h
    · split at h <;> cases h
      rename_i hv
      exact ⟨[_], rfl, .one (FieldClass.value?_eq_ok_some_iff.mp hv)⟩

theorem takeField_nil (spec : FieldSpec) : takeField spec [] = .ok none := by
  simp [takeField, takeStrings]

theorem takeField_one {spec : FieldSpec} {token : Token} {value : FieldValue}
    (h : spec.accepts.Accepts token.kind value) (rest : List Token) :
    takeField spec (token :: rest) = .ok (some (⟨spec.name, value, token.span⟩, rest)) := by
  have hs : spec.accepts ≠ .strs := by
    intro hs
    rw [hs] at h
    cases h
  simp [takeField, hs, FieldClass.value?_eq_ok_some_iff.mpr h]

/-- A list of strings that ends the line is taken whole. -/
theorem takeField_strings {spec : FieldSpec} {first : Token} {more : List Token}
    {contents : List String} (hs : spec.accepts = .strs)
    (h : List.Forall₂ (fun (token : Token) content => token.kind.content? = some content)
      (first :: more) contents) :
    takeField spec (first :: more) =
      .ok (some (⟨spec.name, .strs contents,
        more.foldl (fun span token => span.join token.span) first.span⟩, [])) := by
  obtain ⟨hall, rfl⟩ := forall₂_content?_iff.mp h
  simp only [takeField, hs, if_true, takeStrings, List.takeWhile_eq_self_iff.mpr hall,
    List.dropWhile_eq_nil_iff.mpr hall]

/-! ## Required fields -/

theorem takeRequired_sound {k : Keyword} {terminator : Token} {specs : List FieldSpec}
    {tokens rest : List Token} {fields : List Field}
    (h : takeRequired k terminator specs tokens = .ok (fields, rest)) :
    ∃ head, tokens = head ++ rest ∧ Fills specs head fields := by
  induction specs generalizing tokens fields with
  | nil =>
    cases h
    exact ⟨[], rfl, .nil⟩
  | cons spec specs ih =>
    rw [takeRequired] at h
    obtain ⟨found, hf, h⟩ := bind_eq_ok_iff.mp h
    rcases found with _ | ⟨field, middle⟩
    · cases h
    · obtain ⟨⟨more, last⟩, hm, h⟩ := bind_eq_ok_iff.mp h
      cases h
      obtain ⟨head, rfl, ht⟩ := takeField_sound hf
      obtain ⟨tail, rfl, hfills⟩ := ih hm
      exact ⟨head ++ tail, (List.append_assoc ..).symm, .cons ht hfills⟩

theorem takeRequired_complete (k : Keyword) (terminator : Token) {specs : List FieldSpec}
    {head : List Token} {fields : List Field} (hs : ∀ spec ∈ specs, spec.accepts ≠ .strs)
    (h : Fills specs head fields) (rest : List Token) :
    takeRequired k terminator specs (head ++ rest) = .ok (fields, rest) := by
  induction h with
  | nil => rfl
  | cons ht _ ih =>
    cases ht with
    | one ha =>
      rw [takeRequired, List.append_assoc, List.singleton_append, takeField_one ha]
      simp only [bind, Except.bind]
      rw [ih fun spec hm => hs spec (List.mem_cons_of_mem _ hm)]
      rfl
    | strings hlist => exact absurd hlist (hs _ List.mem_cons_self)

/-! ## Chains -/

/-- What a chain takes is a prefix of it, and it stops at the end of the chain or in front of a
position that finds nothing. -/
theorem takeChain_sound {chain : List FieldSpec} {tokens : List Token} {taken : Taken}
    (h : takeChain chain tokens = .ok taken) :
    ∃ length head, length ≤ chain.length ∧ tokens = head ++ taken.rest ∧
      Fills (chain.take length) head taken.fields ∧
      ∀ spec, chain[length]? = some spec → takeField spec taken.rest = .ok none := by
  induction chain generalizing tokens taken with
  | nil =>
    cases h
    exact ⟨0, [], Nat.le_refl _, rfl, .nil, by simp⟩
  | cons spec chain ih =>
    rw [takeChain] at h
    obtain ⟨found, hf, h⟩ := bind_eq_ok_iff.mp h
    rcases found with _ | ⟨field, middle⟩
    · cases h
      refine ⟨0, [], Nat.zero_le _, rfl, .nil, ?_⟩
      rintro _ ⟨⟩
      exact hf
    · obtain ⟨more, hm, h⟩ := bind_eq_ok_iff.mp h
      cases h
      obtain ⟨head, rfl, ht⟩ := takeField_sound hf
      obtain ⟨length, tail, hle, rfl, hfills, hstop⟩ := ih hm
      exact ⟨length + 1, head ++ tail, Nat.succ_le_succ hle, (List.append_assoc ..).symm,
        .cons ht hfills, hstop⟩

theorem takeChain_complete {chain : List FieldSpec} {length : Nat} {head rest : List Token}
    {fields : List Field} (hs : ∀ spec ∈ chain, spec.accepts ≠ .strs)
    (h : Fills (chain.take length) head fields)
    (hstop : ∀ spec, chain[length]? = some spec → takeField spec rest = .ok none) :
    ∃ missed, takeChain chain (head ++ rest) = .ok ⟨fields, missed, rest⟩ := by
  induction chain generalizing length head fields with
  | nil =>
    rw [List.take_nil] at h
    cases h
    exact ⟨[], rfl⟩
  | cons spec chain ih =>
    cases length with
    | zero =>
      cases h
      refine ⟨[spec], ?_⟩
      rw [List.nil_append, takeChain, hstop spec rfl]
      rfl
    | succ length =>
      cases h with
      | cons ht hfills =>
        cases ht with
        | one ha =>
          obtain ⟨missed, hm⟩ :=
            ih (fun spec hm => hs spec (List.mem_cons_of_mem _ hm)) hfills hstop
          refine ⟨missed, ?_⟩
          rw [takeChain, List.append_assoc, List.singleton_append, takeField_one ha]
          simp only [bind, Except.bind]
          rw [hm]
          rfl
        | strings hlist => exact absurd hlist (hs _ List.mem_cons_self)

/-! ## Forms -/

theorem isTmxPath_iff {path : String} : isTmxPath path ↔ NamesTmx path := by
  rw [isTmxPath]
  simp only [Bool.and_eq_true, decide_eq_true_eq, beq_iff_eq]
  constructor
  · rintro ⟨hlt, hext⟩
    generalize hb : path.toList.reverse = backwards at hlt hext
    have hsplit := List.takeWhile_append_dropWhile (p := (· != '.')) (l := backwards)
    match hd : backwards.dropWhile (· != '.') with
    | [] =>
      rw [hd, List.append_nil] at hsplit
      rw [hsplit] at hlt
      exact absurd hlt (Nat.lt_irrefl _)
    | c :: rest =>
      have hc : c = '.' := by
        have := List.head?_dropWhile_not (· != '.') backwards
        simpa [hd] using this
      refine ⟨rest.reverse, _, ?_, hext⟩
      rw [hd, hc] at hsplit
      rw [← List.reverse_inj, hb, List.reverse_append, List.reverse_cons, List.append_assoc]
      simpa using hsplit.symm
  · rintro ⟨stem, extension, hpath, hext⟩
    -- no character of the extension is a dot, so the last dot stands in front of it
    have hdot : ∀ c ∈ extension.reverse, (c != '.') = true := by
      intro c hc
      have hm : c.toLower ∈ ['t', 'm', 'x'] := by
        rw [← hext]
        exact List.mem_map_of_mem (List.mem_reverse.mp hc)
      rw [bne_iff_ne]
      rintro rfl
      exact absurd hm (by decide)
    have hback : path.toList.reverse = extension.reverse ++ '.' :: stem.reverse := by
      simp [hpath]
    have htake : path.toList.reverse.takeWhile (· != '.') = extension.reverse := by
      rw [hback, List.takeWhile_append_of_pos hdot]
      simp
    rw [htake, hback]
    refine ⟨?_, by rw [List.reverse_reverse, hext]⟩
    simp only [List.length_append, List.length_cons]
    omega

theorem announcedForm?_eq_some_iff {tokens : List Token} {form : Form} :
    announcedForm? tokens = some form ↔
      ∃ fileName file third rest, tokens = fileName :: file :: third :: rest ∧
        FormRow fileName.kind file.kind third.kind form := by
  constructor
  · intro h
    unfold announcedForm? at h
    split at h
    · rename_i fileName file third rest
      refine ⟨fileName, file, third, rest, rfl, ?_⟩
      split at h
      · rename_i hn hf ht
        cases h
        rw [hn, ht]
        exact .reference hf
      · rename_i path hn hf hne
        rw [hn]
        split at h
        · rename_i hs
          obtain ⟨layer, hl⟩ := Option.isSome_iff_exists.mp hs
          cases h
          split
          · rename_i htmx
            exact .layer hf hl (isTmxPath_iff.mp htmx)
          · rename_i htmx
            exact .quotedReference hf hl fun hp => htmx (isTmxPath_iff.mpr hp)
        · cases h
      · cases h
    · cases h
  · rintro ⟨fileName, file, third, rest, rfl, hrow⟩
    obtain ⟨kind, _, _, _⟩ := fileName
    obtain ⟨thirdKind, _, _, _⟩ := third
    cases hrow with
    | reference hf => simp [announcedForm?, hf]
    | layer hf hl hp =>
      cases thirdKind <;> simp_all [announcedForm?, TokenKind.content?, isTmxPath_iff]
    | quotedReference hf hl hp =>
      cases thirdKind <;> simp_all [announcedForm?, TokenKind.content?, isTmxPath_iff]

end ResourceDecl
