import ResourceDecl.Proofs.Documents.Rows

/-!
# Printed programs read back

The printed form of the declarations of any source is a source without problems and comments that
declares the same, one declaration to a line, and it is its own printed form (`ofSource_print`).
The source itself may be broken: what it declares in spite of that is well-formed.

`Statement.print_congr` is the reason why nothing is lost by leaving places aside: the printed form
of a declaration depends on its shape only.
-/

namespace ResourceDecl

open Text

/-! ## What is printed -/

theorem Statement.SameShape.isEmpty_fields {s t : Statement} (h : s.SameShape t) :
    s.fields.isEmpty = t.fields.isEmpty := by
  have hempty := congrArg List.isEmpty h.2.2
  simpa only [content, List.isEmpty_map] using hempty

theorem Statement.print_congr {s t : Statement} (h : s.SameShape t) (options : PrintOptions) :
    s.print options = t.print options := by
  have hempty := h.isEmpty_fields
  obtain ⟨hkeyword, -, hcontent⟩ := h
  have hprint (s : Statement) : (s.fields.map fun field =>
      options.separator ++ field.value.print options.separator) =
      s.content.map fun p => options.separator ++ p.2.print options.separator := by
    rw [content, List.map_map]
    rfl
  rw [print, print, hempty, hkeyword, hprint, hprint, hcontent]

theorem Program.print_congr {p q : Program} (h : List.Forall₂ Statement.SameShape p q)
    (options : PrintOptions) : p.print options = q.print options := by
  have hlines : (p.map fun s => s.print options ++ "\n") =
      q.map fun s => s.print options ++ "\n" := by
    induction h with
    | nil => rfl
    | cons hs _ ih => rw [List.map_cons, List.map_cons, ih, Statement.print_congr hs]
  rw [print, print, hlines]

theorem Program.toList_print (p : Program) (options : PrintOptions) :
    (p.print options).toList =
      (p.map fun s => (s.print options).toList).flatMap (· ++ ['\n']) := by
  simp [print, List.flatMap_map]

/-! ## What is read -/

theorem Statement.WellFormed.reads_print {s : Statement} (h : s.WellFormed)
    (options : PrintOptions) : Reads (s.print options).toList (some s, none) := by
  have hlexes := h.lexes_print options endsToken_nil (.blank rfl)
  rw [List.append_nil] at hlexes
  exact .statement h hlexes

/-- The rows of a printed program. -/
def printedRows (p : Program) : List Row :=
  p.map fun s => (some s, none)

theorem numberedStatements_printedRows (number : Nat) (p : Program) :
    numberedStatements number (printedRows p) = p.zipIdx number := by
  induction p generalizing number with
  | nil => rfl
  | cons s p ih =>
    rw [printedRows, List.map_cons, numberedStatements_cons, ← printedRows, ih]
    rfl

theorem numberedComments_printedRows (number : Nat) (p : Program) :
    numberedComments number (printedRows p) = [] := by
  induction p generalizing number with
  | nil => rfl
  | cons s p ih =>
    rw [printedRows, List.map_cons, numberedComments_cons, ← printedRows, ih]
    rfl

/-- Printed declarations are read back, one to a line. -/
theorem Document.ofSource_print_of_wellFormed {p : Program} (h : ∀ s ∈ p, s.WellFormed)
    (options : PrintOptions) :
    (ofSource (p.print options)).problems = [] ∧ (ofSource (p.print options)).comments = [] ∧
      List.Forall₂ Statement.IsCopy
        (ofSource (p.print options)).program (p.zipIdx 1) := by
  have hlines : ∀ line ∈ p.map fun s => (s.print options).toList, '\n' ∉ line := by
    intro line hm
    obtain ⟨s, hs, rfl⟩ := List.mem_map.mp hm
    exact (h s hs).not_mem_print options
  have hreads : List.Forall₂ Reads
      (p.map fun s => (s.print options).toList) (printedRows p) := by
    rw [printedRows, List.forall₂_map_left_iff, List.forall₂_map_right_iff, List.forall₂_same]
    exact fun s hs => (h s hs).reads_print options
  obtain ⟨hproblems, hprogram, hcomments⟩ :=
    ofSource_of_lines (.inl (p.toList_print options)) hreads hlines
  rw [numberedStatements_printedRows] at hprogram
  rw [numberedComments_printedRows] at hcomments
  exact ⟨hproblems, List.map_eq_nil_iff.mp hcomments, hprogram⟩

/-- For every source and all print options: the printed program has no problems and no comments,
declares what the source declares, its i-th declaration on line i, and prints as itself. -/
theorem ofSource_print (source : String) (options : PrintOptions) :
    let p := (Document.ofSource source).program
    let q := Document.ofSource (p.print options)
    q.problems = [] ∧ q.comments = [] ∧
      List.Forall₂ Statement.SameShape q.program p ∧
      q.program.map Statement.line = List.range' 1 p.length ∧
      q.program.print options = p.print options := by
  intro p q
  have hwell : ∀ s ∈ p, s.WellFormed := fun s hs => Document.wellFormed_of_mem_program hs
  obtain ⟨hproblems, hcomments, hnumbered⟩ := Document.ofSource_print_of_wellFormed hwell options
  have hsame : List.Forall₂ Statement.SameShape q.program p := by
    have hfirst : List.Forall₂ Statement.SameShape q.program ((p.zipIdx 1).map Prod.fst) := by
      rw [List.forall₂_map_right_iff]
      exact hnumbered.imp fun t s h => h.1
    rwa [List.zipIdx_map_fst] at hfirst
  have hlines : q.program.map Statement.line = List.range' 1 p.length := by
    have hsecond : List.Forall₂ (· = ·) (q.program.map Statement.line)
        ((p.zipIdx 1).map Prod.snd) := by
      rw [List.forall₂_map_left_iff, List.forall₂_map_right_iff]
      exact hnumbered.imp fun t s h => h.2
    rw [List.forall₂_eq_eq_eq] at hsecond
    rw [hsecond, List.zipIdx_map_snd]
  exact ⟨hproblems, hcomments, hsame, hlines, Program.print_congr hsame options⟩

end ResourceDecl
