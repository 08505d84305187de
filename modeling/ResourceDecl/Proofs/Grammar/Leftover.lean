import ResourceDecl.Proofs.Grammar.Acceptance
import ResourceDecl.Proofs.Grammar.Stall

/-!
# What could have stood there

A line that has a token left over names the positions that were missed in front of it. They are
exact: the line is accepted without the token, and with another token in its place exactly if that
token fits one of them (`leftover_exact`).

The chains have gone on over the missed positions one after the other, so the first one that fits
takes the token, unless one in front of it refuses the token for its value. None does, since only
positions of the last chain take integers (`FaultsLast`).
-/

namespace ResourceDecl

/-! ## Tokens that fit -/

/-- Only a position of the last chain can refuse a token for its value. -/
def FaultsLast : List (List FieldSpec) → Prop
  | [] | [_] => True
  | chain :: next :: chains =>
    (∀ spec ∈ chain, ∀ kind cause, spec.accepts.value? kind ≠ .error cause) ∧
      FaultsLast (next :: chains)

namespace Remains

variable {chains todos : List (List FieldSpec)}

theorem exists_mem (h : Remains chains todos) {todo : List FieldSpec} (hm : todo ∈ todos)
    {spec : FieldSpec} (hs : spec ∈ todo) : ∃ chain ∈ chains, spec ∈ chain := by
  induction h with
  | refl => exact ⟨todo, hm, hs⟩
  | @part chain _ _ hsuffix =>
    rcases List.mem_cons.mp hm with rfl | hm
    · exact ⟨chain, List.mem_cons_self, hsuffix.mem hs⟩
    · exact ⟨todo, List.mem_cons_of_mem _ hm, hs⟩
  | later _ ih =>
    obtain ⟨chain, hchain, hs⟩ := ih hm
    exact ⟨chain, List.mem_cons_of_mem _ hchain, hs⟩

theorem faultsLast (h : Remains chains todos) (hf : FaultsLast chains) : FaultsLast todos := by
  induction h with
  | refl => exact hf
  | @part chain todo chains hsuffix =>
    cases chains with
    | nil => trivial
    | cons next chains => exact ⟨fun spec hs => hf.1 spec (hsuffix.mem hs), hf.2⟩
  | @later chain chains todos _ ih =>
    cases chains with
    | nil => exact ih trivial
    | cons next chains => exact ih hf.2

end Remains

/-- A token fills a prefix of one of the chains if it fits the first position. -/
theorem FillsChains.exists_accepts {chains : List (List FieldSpec)} {lengths : List Nat}
    {tokens : List Token} {fields : List Field} (h : FillsChains chains lengths tokens fields)
    (hs : ∀ chain ∈ chains, ∀ spec ∈ chain, spec.accepts ≠ .strs) {token : Token}
    (htokens : tokens = [token]) :
    ∃ spec ∈ chains.flatMap (List.take 1), ∃ value, spec.accepts.Accepts token.kind value := by
  induction h with
  | nil => cases htokens
  | @cons chain chains length lengths head tail fields more hle hfills _ ih =>
    obtain ⟨hchain, hchains⟩ := List.forall_mem_cons.mp hs
    cases chain with
    | nil =>
      rw [List.take_nil] at hfills
      cases hfills
      exact ih hchains htokens
    | cons spec chain =>
      cases length with
      | zero =>
        cases hfills
        obtain ⟨other, hother, haccepts⟩ := ih hchains htokens
        exact ⟨other, List.mem_append_right _ hother, haccepts⟩
      | succ length =>
        cases hfills with
        | cons htakes hrest =>
          cases htakes with
          | one haccepts =>
            obtain ⟨rfl, -⟩ := List.cons.inj htokens
            exact ⟨spec, by simp, _, haccepts⟩
          | strings hlist => exact absurd hlist (hchain spec List.mem_cons_self)

theorem takeField_of_value?_none {spec : FieldSpec} {token : Token} (hs : spec.accepts ≠ .strs)
    (h : spec.accepts.value? token.kind = .ok none) (rest : List Token) :
    takeField spec (token :: rest) = .ok none := by
  simp [takeField, hs, h]

theorem takeChains_eq_ok_of_cons {chain : List FieldSpec} {chains : List (List FieldSpec)}
    {tokens : List Token} {first more : Taken} (hfirst : takeChain chain tokens = .ok first)
    (hmore : takeChains chains first.rest = .ok more) :
    ∃ missed, takeChains (chain :: chains) tokens =
      .ok ⟨first.fields ++ more.fields, missed, more.rest⟩ :=
  ⟨_, bind_eq_ok_iff.mpr ⟨_, hfirst, bind_eq_ok_iff.mpr ⟨_, hmore, rfl⟩⟩⟩

theorem takeChain_one {spec : FieldSpec} (chain : List FieldSpec) {token : Token}
    {value : FieldValue} (h : spec.accepts.Accepts token.kind value) :
    takeChain (spec :: chain) [token] =
      .ok ⟨[⟨spec.name, value, token.span⟩], chain.take 1, []⟩ := by
  have hmore : takeChain chain [] = .ok ⟨[], chain.take 1, []⟩ :=
    takeChain_of_miss fun spec _ => takeField_nil spec
  exact bind_eq_ok_iff.mpr ⟨_, takeField_one h [], bind_eq_ok_iff.mpr ⟨_, hmore, rfl⟩⟩

/-- A token that fits a position that is next is taken by the first such position. -/
theorem takeChains_one_of_accepts {todos : List (List FieldSpec)}
    (hs : ∀ todo ∈ todos, ∀ spec ∈ todo, spec.accepts ≠ .strs) (hf : FaultsLast todos)
    {token : Token} {spec : FieldSpec} (hm : spec ∈ todos.flatMap (List.take 1))
    {value : FieldValue} (haccepts : spec.accepts.Accepts token.kind value) :
    ∃ fields missed, takeChains todos [token] = .ok ⟨fields, missed, []⟩ := by
  induction todos with
  | nil => cases hm
  | cons todo todos ih =>
    obtain ⟨htodo, htodos⟩ := List.forall_mem_cons.mp hs
    have hrest : FaultsLast todos := (Remains.later (.refl todos)).faultsLast hf
    rw [List.flatMap_cons, List.mem_append] at hm
    have hlater (hmiss : ∀ first ∈ todo.take 1, takeField first [token] = .ok none) :
        ∃ fields missed, takeChains (todo :: todos) [token] = .ok ⟨fields, missed, []⟩ := by
      have hbehind : spec ∈ todos.flatMap (List.take 1) := by
        refine hm.resolve_left fun hfirst => ?_
        have hnone := hmiss spec hfirst
        rw [takeField_one haccepts] at hnone
        cases hnone
      obtain ⟨fields, missed, hmore⟩ := ih htodos hrest hbehind
      exact ⟨_, takeChains_eq_ok_of_cons (takeChain_of_miss hmiss) hmore⟩
    cases todo with
    | nil => exact hlater (by simp)
    | cons first more =>
      cases hv : first.accepts.value? token.kind with
      | ok found =>
        cases found with
        | none =>
          have hmiss := takeField_of_value?_none (htodo first List.mem_cons_self) hv []
          exact hlater (by simpa using hmiss)
        | some taken =>
          exact ⟨_, takeChains_eq_ok_of_cons (takeChain_one more (FieldClass.accepts_of_value? hv))
            (takeChains_of_miss fun spec _ => takeField_nil spec)⟩
      | error cause =>
        -- only a position of the last chain refuses the token, and then it is the one that fits
        cases todos with
        | nil =>
          obtain rfl : spec = first := by simpa using hm
          rw [FieldClass.value?_of_accepts haccepts] at hv
          cases hv
        | cons next todos => exact absurd hv (hf.1 first List.mem_cons_self _ _)

/-- One more token is taken exactly if it fits a position that is next. -/
theorem takeChains_one_iff {todos : List (List FieldSpec)}
    (hs : ∀ todo ∈ todos, ∀ spec ∈ todo, spec.accepts ≠ .strs) (hf : FaultsLast todos)
    {token : Token} :
    (∃ fields missed, takeChains todos [token] = .ok ⟨fields, missed, []⟩) ↔
      ∃ spec ∈ todos.flatMap (List.take 1), ∃ value, spec.accepts.Accepts token.kind value := by
  constructor
  · rintro ⟨fields, missed, h⟩
    obtain ⟨lengths, head, hhead, hfills⟩ := takeChains_sound h
    rw [List.append_nil] at hhead
    exact hfills.exists_accepts hs hhead.symm
  · rintro ⟨spec, hm, value, haccepts⟩
    exact takeChains_one_of_accepts hs hf hm haccepts

/-! ## Shapes of the table -/

theorem FieldClass.value?_sortKey_ne_error {kind : TokenKind} {cause : Cause} :
    FieldClass.sortKey.value? kind ≠ .error cause := by
  cases kind <;> nofun

/-- Only `XGM2` has a list of strings, and no shape has a number in front of its last chain. -/
theorem Keyword.shape?_one_each {k : Keyword} {form : Option Form} {shape : Shape}
    (h : k.shape? form = some shape) (hk : k ≠ .xgm2) :
    shape.Positional ∧ FaultsLast shape.chains := by
  have hpos : shape.Positional := by
    revert h hk
    cases k <;> rcases form with _ | _ | _ <;> rintro ⟨⟩ hk <;> first | decide | exact absurd rfl hk
  refine ⟨hpos, ?_⟩
  rcases Keyword.shape?_cases h with rfl | ⟨-, hone | hchains⟩
  · trivial
  · match shape.chains, hone with
    | [], _ | [_], _ => trivial
  · rw [hchains]
    refine ⟨fun spec hm kind cause => ?_, trivial⟩
    obtain rfl : spec = ⟨.sortBy, .sortKey⟩ := List.mem_singleton.mp hm
    exact FieldClass.value?_sortKey_ne_error

/-! ## Lines with a token left over -/

/-- Behind the keyword, the readers of the required fields and of the chains take `before`, and the
token is left over; `missed` are the positions that found nothing since the last field. -/
def LeavesOver (k : Keyword) (terminator : Token) (before : List Token) (token : Token)
    (after : List Token) (missed : List FieldSpec) : Prop :=
  ∃ form shape required rest optional, k.Selects (before ++ token :: after) form ∧
    k.shape? form = some shape ∧
    takeRequired k terminator shape.required (before ++ token :: after) = .ok (required, rest) ∧
    takeChains shape.chains rest = .ok ⟨optional, missed, token :: after⟩

/-- Behind required fields and a part of the chains, a declaration goes on with what remains of the
chains. -/
theorem ofShape_behind_iff {opener terminator : Token} {k : Keyword} {form : Option Form}
    {shape : Shape} {head middle : List Token} {required optional : List Field}
    {todos : List (List FieldSpec)} (hpos : shape.Positional)
    (hfills : Fills shape.required head required)
    (hpasses : Passes shape.chains todos middle optional) (others : List Token) :
    (∃ s, Statement.ofShape opener terminator k form shape (head ++ (middle ++ others)) = .ok s) ↔
      ∃ fields missed, takeChains todos others = .ok ⟨fields, missed, []⟩ := by
  have htake := takeRequired_complete k terminator hpos.required hfills (middle ++ others)
  have hcontinues := hpasses.continues others
  constructor
  · rintro ⟨s, hs⟩
    obtain ⟨_, _, _, _, hr, hc, -⟩ := ofShape_eq_ok_iff.mp hs
    rw [htake] at hr
    cases hr
    rw [hcontinues] at hc
    cases htodos : takeChains todos others with
    | error problem =>
      rw [htodos] at hc
      cases hc
    | ok taken =>
      obtain ⟨last, missed, left⟩ := taken
      rw [htodos] at hc
      cases hc
      exact ⟨_, _, rfl⟩
  · rintro ⟨fields, missed, hc⟩
    rw [hc] at hcontinues
    exact ⟨_, ofShape_eq_ok_iff.mpr ⟨_, _, _, _, htake, hcontinues, rfl⟩⟩

/-- The line is refused at the token that is left over. In its place, a line may go on with what the
open positions take. -/
theorem LeavesOver.ofTokens {k : Keyword} {opener terminator token : Token}
    {before after : List Token} {missed : List FieldSpec} (hk : k ≠ .xgm2)
    (hopener : opener.kind = .keyword k) (h : LeavesOver k terminator before token after missed) :
    Statement.ofTokens opener (before ++ token :: after) terminator =
        .error (token.problem (trailingCause k missed token.kind)) ∧
      ∃ todos, (∀ todo ∈ todos, ∀ spec ∈ todo, spec.accepts ≠ .strs) ∧ FaultsLast todos ∧
        missed = todos.flatMap (List.take 1) ∧
        ∀ others, (∃ s, Statement.ofTokens opener (before ++ others) terminator = .ok s) ↔
          ∃ fields missed, takeChains todos others = .ok ⟨fields, missed, []⟩ := by
  obtain ⟨form, shape, required, rest, optional, hselects, hshape, hrequired, hchains⟩ := h
  obtain ⟨hpos, hfaults⟩ := Keyword.shape?_one_each hshape hk
  obtain ⟨head, htokens, hfills⟩ := takeRequired_sound hrequired
  obtain ⟨middle, todos, rfl, hpasses, hmissed, -⟩ := takeChains_eq_ok hpos.chains hchains
  obtain rfl : before = head ++ middle := by
    rw [← List.append_assoc] at htokens
    exact List.append_cancel_right htokens
  have hread (others : List Token) :
      Statement.ofTokens opener (head ++ middle ++ others) terminator =
        Statement.ofShape opener terminator k form shape (head ++ middle ++ others) := by
    refine ofTokens_of_selects terminator hopener ?_ hshape
    rw [List.append_assoc] at hselects ⊢
    exact hselects.of_required hshape hfills _
  refine ⟨?_, todos, fun todo hm spec hs => ?_, hpasses.remains.faultsLast hfaults, hmissed,
    fun others => ?_⟩
  · rw [hread, Statement.ofShape, hrequired]
    simp only [bind, Except.bind, hchains]
  · obtain ⟨chain, hchain, hs⟩ := hpasses.remains.exists_mem hm hs
    exact hpos.chains chain hchain spec hs
  · rw [hread, List.append_assoc]
    exact ofShape_behind_iff hpos hfills hpasses others

/-! ## What the problem names -/

/-- The problem names the one position for words, if a word stands there, or else all positions. -/
theorem trailingCause_cases (k : Keyword) (missed : List FieldSpec) (found : TokenKind) :
    (∃ spec vocabulary word, missed = [spec] ∧ spec.accepts = .choice vocabulary ∧
        found.word? = some word ∧
        trailingCause k missed found = .foreignWord k spec.name vocabulary word) ∨
      (∀ spec vocabulary word, missed = [spec] → spec.accepts = .choice vocabulary →
        found.word? ≠ some word) ∧ trailingCause k missed found = .trailing k found missed := by
  have hvocabulary {accepts : FieldClass} {vocabulary : Vocabulary} :
      accepts.vocabulary? = some vocabulary ↔ accepts = .choice vocabulary := by
    cases accepts <;> simp [FieldClass.vocabulary?]
  unfold trailingCause
  split
  · rename_i spec
    split
    · rename_i vocabulary word hv hw
      exact .inl ⟨spec, vocabulary, word, rfl, hvocabulary.mp hv, hw, rfl⟩
    · rename_i hnot
      refine .inr ⟨?_, rfl⟩
      rintro _ vocabulary word ⟨⟩ hs hw
      exact hnot _ _ (hvocabulary.mpr hs) hw
  · rename_i hnot
    exact .inr ⟨fun spec _ _ heq => absurd heq (hnot spec), rfl⟩

/-! ## Lines cut short -/

/-- The line is one declaration, and nothing is wrong with it. -/
def Declares (opener : Token) (tokens : List Token) (terminator : Token) : Prop :=
  ∃ s, Document.ofTokens (opener :: tokens ++ [terminator]) = ⟨[s], [], []⟩

section Line

variable {opener terminator : Token} {tokens : List Token}

theorem declares_iff_ofTokens
    (hopener : opener.kind ≠ .newline ∧ opener.kind ≠ .done ∧ opener.kind ≠ .unreadable)
    (htokens : ∀ token ∈ tokens,
      token.kind ≠ .newline ∧ token.kind ≠ .done ∧ token.kind ≠ .unreadable)
    (hterminator : terminator.kind = .newline ∨ terminator.kind = .done) :
    Declares opener tokens terminator ↔
      ∃ s, Statement.ofTokens opener tokens terminator = .ok s := by
  rw [Declares, ofTokens_line (List.forall_mem_cons.mpr ⟨hopener, htokens⟩) hterminator]
  cases Statement.ofTokens opener tokens terminator <;> simp

theorem not_declares_of_unreadable (hopener : opener.kind ≠ .newline ∧ opener.kind ≠ .done)
    (htokens : ∀ token ∈ tokens, token.kind ≠ .newline ∧ token.kind ≠ .done)
    (hterminator : terminator.kind = .newline ∨ terminator.kind = .done) {token : Token}
    (hm : token ∈ tokens) (hk : token.kind = .unreadable) :
    ¬ Declares opener tokens terminator := by
  rintro ⟨s, hs⟩
  have hprogram := congrArg Document.program hs
  rw [Document.ofTokens_eq_runs, filterMap_runs_line Run.statement?_nil
      (List.forall_mem_cons.mpr ⟨hopener, htokens⟩) hterminator,
    Run.statement?, Run.outcome?_eq_none_of_mem (List.mem_cons_of_mem _ hm) hk] at hprogram
  cases hprogram

end Line

theorem FieldClass.not_accepts_unreadable {accepts : FieldClass} {value : FieldValue} :
    ¬ accepts.Accepts .unreadable value := by
  rintro (_ | ⟨⟨⟩⟩ | _ | ⟨⟨⟩⟩ | _ | _ | _ | _ | _ | _ | _ | ⟨⟨⟩⟩)

/-- The positions that a leftover token makes the problem name are exact. The line is accepted if it
ends in front of that token. If it goes on with one other token, it is accepted exactly if that
token fits one of the positions. The problem names all of them in its note, or the one position in
its message if that is for words and a word stands there. -/
theorem leftover_exact {k : Keyword} {opener terminator token : Token} {before after : List Token}
    {missed : List FieldSpec} (hk : k ≠ .xgm2) (hopener : opener.kind = .keyword k)
    (htokens : ∀ t ∈ before ++ token :: after,
      t.kind ≠ .newline ∧ t.kind ≠ .done ∧ t.kind ≠ .unreadable)
    (hterminator : terminator.kind = .newline ∨ terminator.kind = .done)
    (hleft : LeavesOver k terminator before token after missed) :
    ∃ problem, Document.ofTokens (opener :: (before ++ token :: after) ++ [terminator]) =
        ⟨[], [problem], []⟩ ∧
      problem.span = token.span ∧
      Declares opener before terminator ∧
      (∀ other, other.kind ≠ .newline → other.kind ≠ .done →
        (Declares opener (before ++ [other]) terminator ↔
          ∃ spec ∈ missed, ∃ value, spec.accepts.Accepts other.kind value)) ∧
      ((∃ spec vocabulary word, missed = [spec] ∧ spec.accepts = .choice vocabulary ∧
          token.kind.word? = some word ∧ problem.diagnostic.message =
            "'" ++ word ++ "' is not a valid " ++ vocabulary.name ++ " for " ++ spec.name.text ++
              " in " ++ k.spelling ++ " statement") ∨
        (∀ spec vocabulary word, missed = [spec] → spec.accepts = .choice vocabulary →
          token.kind.word? ≠ some word) ∧
        problem.diagnostic.message =
          "Unexpected " ++ token.kind.describe ++ " in " ++ k.spelling ++ " statement" ∧
        problem.diagnostic.notes =
          if missed = [] then []
          else ["expected " ++ String.intercalate ", " (missed.map FieldSpec.describe) ++
            " or end of line"]) := by
  obtain ⟨herror, todos, hpos, hfaults, hmissed, hgoes⟩ := hleft.ofTokens hk hopener
  have hread : opener.kind ≠ .newline ∧ opener.kind ≠ .done ∧ opener.kind ≠ .unreadable := by
    rw [hopener]
    exact ⟨nofun, nofun, nofun⟩
  have hbefore : ∀ t ∈ before, t.kind ≠ .newline ∧ t.kind ≠ .done ∧ t.kind ≠ .unreadable :=
    fun t hm => htokens t (List.mem_append_left _ hm)
  refine ⟨token.problem (trailingCause k missed token.kind), ?_, rfl, ?_, ?_, ?_⟩
  · rw [ofTokens_line (List.forall_mem_cons.mpr ⟨hread, htokens⟩) hterminator, herror]
  · have hnothing := (hgoes []).mpr ⟨_, _, takeChains_of_miss fun spec _ => takeField_nil spec⟩
    rw [List.append_nil] at hnothing
    exact (declares_iff_ofTokens hread hbefore hterminator).mpr hnothing
  · intro other hnewline hdone
    by_cases hother : other.kind = .unreadable
    · refine iff_of_false
        (not_declares_of_unreadable ⟨hread.1, hread.2.1⟩ ?_ hterminator (by simp) hother) ?_
      · exact List.forall_mem_append.mpr ⟨fun t hm => ⟨(hbefore t hm).1, (hbefore t hm).2.1⟩,
          List.forall_mem_singleton.mpr ⟨hnewline, hdone⟩⟩
      · rw [hother]
        rintro ⟨spec, -, value, haccepts⟩
        exact FieldClass.not_accepts_unreadable haccepts
    · have hmore : ∀ t ∈ before ++ [other],
          t.kind ≠ .newline ∧ t.kind ≠ .done ∧ t.kind ≠ .unreadable :=
        List.forall_mem_append.mpr
          ⟨hbefore, List.forall_mem_singleton.mpr ⟨hnewline, hdone, hother⟩⟩
      rw [declares_iff_ofTokens hread hmore hterminator, hgoes, takeChains_one_iff hpos hfaults,
        hmissed]
  · rcases trailingCause_cases k missed token.kind with
      ⟨spec, vocabulary, word, hone, hwords, hword, hcause⟩ | ⟨hnone, hcause⟩
    · refine .inl ⟨spec, vocabulary, word, hone, hwords, hword, ?_⟩
      rw [hcause]
      rfl
    · refine .inr ⟨hnone, ?_, ?_⟩
      · rw [hcause]
        rfl
      · rw [hcause]
        cases missed <;> rfl

/-- A number is left over behind the fields that `OBJECTS` requires: a sort key or a string could
have stood there, and nothing else. -/
theorem leftover_exact_objects :
    let token (kind : TokenKind) : Token := ⟨kind, ⟨0, 0⟩, 1, 1⟩
    let opener := token (.keyword .objects)
    let before := [.ident "o", .string "a.tmx", .string "l", .string "d"].map token
    let missed : List FieldSpec := [⟨.sortBy, .sortKey⟩, ⟨.declType, .str⟩]
    LeavesOver .objects (token .done) before (token (.int "5")) [] missed ∧
      Declares opener before (token .done) ∧
      (Declares opener (before ++ [token (.sortKey "x")]) (token .done) ↔
        ∃ spec ∈ missed, ∃ value, spec.accepts.Accepts (.sortKey "x") value) := by
  intro token opener before missed
  have hleft : LeavesOver .objects (token .done) before (token (.int "5")) [] missed :=
    ⟨none, _, _, [token (.int "5")], [], .none nofun nofun, rfl, rfl, rfl⟩
  obtain ⟨_, -, -, hbefore, hone, -⟩ :=
    leftover_exact (by decide) (show opener.kind = .keyword .objects from rfl) (by decide)
      (show (token .done).kind = .newline ∨ (token .done).kind = .done from .inr rfl) hleft
  exact ⟨hleft, hbefore, hone (token (.sortKey "x")) nofun nofun⟩

end ResourceDecl
