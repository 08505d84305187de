import Mathlib.Data.List.Lex
import Mathlib.Order.Lattice
import ResourceDecl.Files.Discovery

/-!
# Names and paths

* `components`: the names of a path one behind the other; a name at the end of a path is one more
  component (`components_joinPath`, `components_pathBelow`).
* `namesLE_iff`: the order of files is that of lists of names.
* `isResourceName_iff`: declaration files have the extension `res`.
* `isPassedOver_iff`: directories are passed over by their names, if those are texts.
-/

namespace ResourceDecl

open RawText

/-! ## Bytes -/

instance linearOrderByte : LinearOrder UInt8 where
  le_refl := UInt8.le_refl
  le_trans _ _ _ := UInt8.le_trans
  le_antisymm _ _ := UInt8.le_antisymm
  le_total := UInt8.le_total
  lt_iff_le_not_ge a b := by
    simp only [UInt8.lt_iff_toNat_lt, UInt8.le_iff_toNat_le]
    omega
  toDecidableLE := inferInstance

namespace RawText

theorem bytes_injective : Function.Injective bytes := by
  rintro ⟨a⟩ ⟨b⟩ rfl
  rfl

instance : LinearOrder RawText :=
  LinearOrder.lift' bytes bytes_injective

/-- The bytes are a text. -/
def IsText (raw : RawText) : Prop :=
  ∃ text, raw = ofString text

theorem isText_iff {raw : RawText} : raw.IsText ↔ raw.text?.isSome := by
  rw [Option.isSome_iff_exists]
  exact exists_congr fun text => text?_eq_some_iff.symm

instance : DecidablePred IsText :=
  fun _ => decidable_of_iff _ isText_iff.symm

end RawText

/-! ## Extensions -/

/-- The extension is what stands behind the last dot of the name, which is not its first
character. -/
def HasExtension (name extension : RawText) : Prop :=
  ∃ stem, stem ≠ [] ∧ dot ∉ extension.bytes ∧ name.bytes = stem ++ dot :: extension.bytes

theorem isResourceName_iff {name : RawText} :
    isResourceName name ↔ HasExtension name "res" := by
  have hres : (ofString "res").bytes.reverse = [0x73, 0x65, 0x72] := by decide +kernel
  rw [isResourceName, hres, Bool.and_eq_true, beq_iff_eq, decide_eq_true_eq]
  constructor
  · rintro ⟨hextension, hlength⟩
    have hcut := List.takeWhile_append_dropWhile (p := (· != dot)) (l := name.bytes.reverse)
    rw [hextension] at hcut
    rcases hrest : name.bytes.reverse.dropWhile (· != dot) with _ | ⟨first, stem⟩
    · rw [← hcut, hrest] at hlength
      simp at hlength
    · have hdot : first = dot := by
        have hhead := List.head?_dropWhile_not (· != dot) name.bytes.reverse
        rw [hrest] at hhead
        simpa using hhead
      subst hdot
      rw [hrest] at hcut
      refine ⟨stem.reverse, ?_, by decide +kernel, ?_⟩
      · rintro hempty
        rw [← hcut, List.reverse_eq_nil_iff.mp hempty] at hlength
        simp at hlength
      · rw [← List.reverse_inj, ← hcut, List.reverse_append, List.reverse_cons, hres]
        simp
  · rintro ⟨stem, hstem, -, hname⟩
    have hpositive : 0 < stem.length := List.length_pos_iff.mpr hstem
    have hbackwards : name.bytes.reverse = [0x73, 0x65, 0x72] ++ dot :: stem.reverse := by
      rw [hname, List.reverse_append, List.reverse_cons, hres, List.append_assoc]
      rfl
    rw [hbackwards]
    refine ⟨by simp [dot], ?_⟩
    simp only [List.length_append, List.length_cons, List.length_nil, List.length_reverse]
    omega

/-! ## Directories that are passed over -/

/-- The name is that of a hidden directory or of one for build output. -/
def IsHidden (name : RawText) : Prop :=
  name.bytes.head? = some dot ∨ name = "target" ∨ name = "out"

instance : DecidablePred IsHidden :=
  fun _ => inferInstanceAs (Decidable (_ ∨ _ ∨ _))

/-- The name of a directory that is passed over: a name that is no text is not looked at. -/
def IsPassedOver (name : RawText) : Prop :=
  name.IsText ∧ IsHidden name

theorem head?_utf8EncodeChar (c : Char) :
    (String.utf8EncodeChar c).head? = some dot ↔ c = '.' := by
  have hchar : c = '.' ↔ c.val.toNat = 46 := by
    rw [Char.ext_iff, ← UInt32.toNat_inj]
    rfl
  rw [hchar]
  -- a character of more than one byte starts with a byte above all those of single ones
  fun_cases String.utf8EncodeChar c <;>
    simp only [List.head?_cons, Option.some_inj, ← UInt8.toNat_inj, UInt8.toNat_ofNat']
  all_goals
    show _ % 256 = 46 ↔ _
    omega

theorem head?_bytes_ofString (text : String) :
    (ofString text).bytes.head? = some dot ↔ text.toList.head? = some '.' := by
  have hbytes : (ofString text).bytes = text.toList.flatMap String.utf8EncodeChar := by
    show text.toByteArray.data.toList = _
    rw [← String.utf8Encode_toList, List.utf8Encode]
    exact List.toList_data_toByteArray
  rw [hbytes]
  cases text.toList with
  | nil => simp
  | cons c rest =>
    rw [List.flatMap_cons, List.head?_append_of_ne_nil _ String.utf8EncodeChar_ne_nil,
      head?_utf8EncodeChar, List.head?_cons, Option.some_inj]

theorem isPassedOver_iff {name : RawText} :
    isPassedOver name ↔ IsPassedOver name := by
  cases htext : name.text? with
  | none =>
    have hnot : ¬ name.IsText := by simp [isText_iff, htext]
    simp [isPassedOver, IsPassedOver, htext, hnot]
  | some text =>
    obtain rfl := text?_eq_some_iff.mp htext
    have hname : (ofString text).IsText := ⟨text, rfl⟩
    have hsame (word : String) : ofString text = ofString word ↔ text = word := by
      rw [← text?_eq_some_iff, text?_ofString, Option.some_inj]
    rw [isPassedOver, htext, IsPassedOver, IsHidden, head?_bytes_ofString, hsame, hsame]
    simp [hname, or_assoc]

/-! ## The order of files -/

theorem namesLE_iff {names others : List RawText} : namesLE names others ↔ ¬ others < names := by
  induction names generalizing others with
  | nil => simp [namesLE]
  | cons a names ih =>
    cases others with
    | nil => simp [namesLE]
    | cons b others =>
      rw [namesLE, List.cons_lt_cons_iff]
      by_cases hsame : a = b
      · subst hsame
        rw [if_pos rfl, ih]
        simp
      · rw [if_neg hsame, decide_eq_true_eq]
        have hne : b ≠ a := fun h => hsame h.symm
        simp only [hne, false_and, or_false, not_lt]
        exact ⟨le_of_lt, fun h => lt_of_le_of_ne h hsame⟩

theorem namesLE_trans (a b c : List RawText) (hab : namesLE a b) (hbc : namesLE b c) :
    namesLE a c := by
  rw [namesLE_iff, not_lt] at *
  exact hab.trans hbc

theorem namesLE_total (a b : List RawText) : namesLE a b || namesLE b a := by
  rw [Bool.or_eq_true, namesLE_iff, namesLE_iff, not_lt, not_lt]
  exact le_total a b

/-! ## Components -/

/-- A name that a directory may hold. -/
def IsFileName (name : RawText) : Prop :=
  name ≠ "" ∧ name ≠ "." ∧ name ≠ ".." ∧ slash ∉ name.bytes

instance : DecidablePred IsFileName :=
  fun _ => inferInstanceAs (Decidable (_ ∧ _ ∧ _ ∧ _))

/-- The components of a path: its names, with a slash or a dot in front if it starts with one.
Slashes that follow each other count as one, and dots behind the start are left out. -/
def components (path : RawText) : List RawText :=
  let parts := path.bytes.splitOn slash
  let start : List RawText :=
    if path.bytes.head? = some slash then ["/"]
    else if parts.head? = some [dot] then ["."]
    else []
  start ++ (parts.filter fun part => part ≠ [] ∧ part ≠ [dot]).map RawText.mk

/-- The path to which the names lead from a directory. -/
def pathBelow (directory : RawText) (names : List RawText) : RawText :=
  names.foldl joinPath directory

@[simp] theorem pathBelow_nil (directory : RawText) : pathBelow directory [] = directory := rfl

@[simp] theorem pathBelow_cons (directory name : RawText) (names : List RawText) :
    pathBelow directory (name :: names) = pathBelow (joinPath directory name) names := rfl

/-- A path that is joined ends in a slash and the name; the slash may stand there before. -/
theorem bytes_joinPath (directory name : RawText) :
    ∃ front, (joinPath directory name).bytes = front ++ slash :: name.bytes ∧
      (directory.bytes = front ++ [slash] ∨ directory.bytes = front) := by
  rw [joinPath]
  split
  · rename_i hslash
    have hdirectory := (List.dropLast_append_getLast? slash hslash).symm
    refine ⟨directory.bytes.dropLast, ?_, .inl hdirectory⟩
    show directory.bytes ++ name.bytes = _
    conv_lhs => rw [hdirectory]
    rw [List.append_assoc, List.singleton_append]
  · exact ⟨directory.bytes, rfl, .inr rfl⟩

theorem joinPath_ne_empty (directory name : RawText) : joinPath directory name ≠ "" := by
  obtain ⟨front, hjoin, -⟩ := bytes_joinPath directory name
  intro hempty
  rw [hempty] at hjoin
  exact List.append_ne_nil_of_right_ne_nil front (List.cons_ne_nil _ _) hjoin.symm

theorem components_joinPath {directory name : RawText} (hdirectory : directory ≠ "")
    (hname : IsFileName name) :
    components (joinPath directory name) = components directory ++ [name] := by
  obtain ⟨hempty, hdot, -, hslash⟩ := hname
  obtain ⟨front, hjoin, hfront⟩ := bytes_joinPath directory name
  -- a slash at the end of the directory adds an empty part
  have hold : ∃ rest, directory.bytes.splitOn slash = front.splitOn slash ++ rest ∧
      ∀ part ∈ rest, part = [] := by
    rcases hfront with hfront | hfront
    · exact ⟨[[]], by rw [hfront, List.splitOn_append_cons_self, List.splitOn_nil], by simp⟩
    · exact ⟨[], by rw [hfront, List.append_nil], by simp⟩
  obtain ⟨rest, hold, hrest⟩ := hold
  have hnew : (joinPath directory name).bytes.splitOn slash =
      front.splitOn slash ++ [name.bytes] := by
    rw [hjoin, List.splitOn_append_cons_self, List.splitOn_eq_singleton hslash]
  have hstart : (joinPath directory name).bytes.head? = directory.bytes.head? := by
    rcases hfront with hfront | hfront
    · rw [hjoin, hfront]
      cases front <;> rfl
    · rw [hjoin, hfront]
      cases front with
      | nil => exact absurd (bytes_injective hfront) hdirectory
      | cons => rfl
  have hfirst (parts : List (List UInt8)) :
      (front.splitOn slash ++ parts).head? = (front.splitOn slash).head? :=
    List.head?_append_of_ne_nil _ (List.splitOn_ne_nil slash front)
  have hnone : rest.filter (fun part => part ≠ [] ∧ part ≠ [dot]) = [] :=
    List.filter_eq_nil_iff.mpr fun part hpart => by simp [hrest part hpart]
  have hone : [name.bytes].filter (fun part => part ≠ [] ∧ part ≠ [dot]) = [name.bytes] := by
    have hfilled : name.bytes ≠ [] := fun h => hempty (bytes_injective h)
    have hother : name.bytes ≠ [dot] := fun h => hdot (bytes_injective h)
    exact List.filter_eq_self.mpr fun part hpart => by
      rw [List.mem_singleton.mp hpart]
      exact decide_eq_true ⟨hfilled, hother⟩
  simp only [components, hstart, hnew, hold, hfirst]
  rw [List.filter_append, List.filter_append, hnone, hone]
  simp

theorem components_pathBelow {directory : RawText} {names : List RawText}
    (hdirectory : directory ≠ "") (hnames : ∀ name ∈ names, IsFileName name) :
    components (pathBelow directory names) = components directory ++ names := by
  induction names generalizing directory with
  | nil => simp
  | cons name names ih =>
    obtain ⟨hname, hnames⟩ := List.forall_mem_cons.mp hnames
    rw [pathBelow_cons, ih (joinPath_ne_empty _ _) hnames, components_joinPath hdirectory hname]
    simp

/-- A path grows with each name. -/
theorem length_lt_joinPath {directory name : RawText} (hname : IsFileName name) :
    directory.bytes.length < (joinPath directory name).bytes.length := by
  have hpositive : 0 < name.bytes.length :=
    List.length_pos_iff.mpr fun h => hname.1 (bytes_injective h)
  rw [joinPath]
  split
  · show _ < (directory.bytes ++ name.bytes).length
    rw [List.length_append]
    omega
  · show _ < (directory.bytes ++ slash :: name.bytes).length
    rw [List.length_append, List.length_cons]
    omega

end ResourceDecl
