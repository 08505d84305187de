import ResourceDecl.Proofs.CommandLine.Runs

/-!
# Formatting twice

A file is settled if it is not due for a change. A run that writes settles every file that it takes
up, and a settled file stays so, also if it is written later under another name; so a second run
finds nothing to do.

* `FileTree.change?_foldl_rewrite`: the files are settled behind a run.
* `FileTree.reformat_settles`: what later runs change and print.
-/

namespace ResourceDecl

namespace FileTree

variable {tree : FileTree} {config : LayoutConfig} {path : RawText} {paths : List RawText}

/-! ## Settled files -/

theorem change?_foldl_of_settled (hwritable : ∀ path ∈ paths, tree.AllowsWriting path)
    {other : RawText} (hsettled : tree.change? config other = none) :
    (paths.foldl (rewrite config) tree).change? config other = none := by
  induction paths generalizing tree with
  | nil => exact hsettled
  | cons path paths ih =>
    obtain ⟨hfirst, hrest⟩ := List.forall_mem_cons.mp hwritable
    have hkeeps := keeps_rewrite config tree path
    exact ih (fun p hp => (hrest p hp).of_keeps hkeeps) (change?_rewrite_of_settled hfirst hsettled)

theorem change?_foldl_rewrite (hwritable : ∀ path ∈ paths, tree.AllowsWriting path)
    (hpath : path ∈ paths) : (paths.foldl (rewrite config) tree).change? config path = none := by
  induction paths generalizing tree with
  | nil => cases hpath
  | cons first paths ih =>
    obtain ⟨hfirst, hrest⟩ := List.forall_mem_cons.mp hwritable
    have hlater : ∀ p ∈ paths, (tree.rewrite config first).AllowsWriting p :=
      fun p hp => (hrest p hp).of_keeps (keeps_rewrite config tree first)
    cases hpath with
    | head => exact change?_foldl_of_settled hlater (change?_rewrite_self hfirst)
    | tail _ hmem => exact ih hlater hmem

theorem foldl_rewrite_of_settled (hsettled : ∀ path ∈ paths, tree.change? config path = none) :
    paths.foldl (rewrite config) tree = tree := by
  induction paths with
  | nil => rfl
  | cons path paths ih =>
    obtain ⟨hfirst, hrest⟩ := List.forall_mem_cons.mp hsettled
    rw [List.foldl_cons, rewrite_of_change?_eq_none hfirst, ih hrest]

theorem undisturbed_of_settled {options : ReformatOptions}
    (hsettled : ∀ path ∈ paths, tree.change? options.config path = none) :
    tree.Undisturbed options paths := by
  refine List.pairwise_iff_forall_sublist.mpr fun {path other} hsub hdisturbs => ?_
  exact hdisturbs.2.1 (hsettled path (hsub.subset (List.mem_cons_self ..)))

theorem Writable.of_keeps {after : FileTree} (hwritable : tree.Writable path)
    (h : tree.Keeps after) : after.Writable path := by
  intro file hfile
  rw [h.sources_eq] at hfile
  exact (hwritable file hfile).of_keeps h

/-! ## The second run -/

/-- A run over settled files prints its last line only. -/
theorem stdout_of_settled (options : ReformatOptions) (hwritable : tree.Writable path)
    (hsettled : tree.changes options.config path = []) :
    (tree.run (.reformat path options)).1.stdout = tree.closing options path := by
  have hundisturbed := undisturbed_of_settled (List.filterMap_eq_nil_iff.mp hsettled)
  rw [stdout_of_undisturbed hwritable hundisturbed, hsettled]
  exact String.empty_append

theorem closing_of_write (align : Bool)
    (hsettled : tree.changes { alignKeywords := align } path = []) :
    tree.closing ⟨false, false, align⟩ path =
      if tree.sources path = [] then "" else
        "\n✓ 0 file(s) formatted, " ++ toString ((tree.sources path).countP tree.isBroken) ++
          " error(s)\n" := by
  have hzero : "\n✓ " ++ toString ([] : List Change).length ++ " file(s) formatted, " =
      "\n✓ 0 file(s) formatted, " := by decide +kernel
  have hconfig : ReformatOptions.config ⟨false, false, align⟩ = { alignKeywords := align } := rfl
  simp only [closing, hconfig, hsettled, hzero]
  rfl

theorem closing_of_check (diff align : Bool)
    (hsettled : tree.changes { alignKeywords := align } path = []) :
    tree.closing ⟨true, diff, align⟩ path =
      if tree.sources path = [] then "" else
        "✓ " ++ toString (tree.sources path).length ++ " file(s) already formatted\n" := by
  have hconfig : ReformatOptions.config ⟨true, diff, align⟩ = { alignKeywords := align } := rfl
  simp only [closing, hconfig, hsettled]
  rfl

/-- Behind a run that writes, a second one changes nothing and prints that it formatted no file, and
a check lists no file. -/
theorem reformat_settles (tree : FileTree) (path : RawText) (align : Bool)
    (hwritable : tree.Writable path) :
    let write : Request := .reformat path ⟨false, false, align⟩
    let after := (tree.run write).2
    let files := after.sources path
    (after.run write).2 = after ∧
      (after.run write).1.stdout =
        (if files = [] then ""
          else "\n✓ 0 file(s) formatted, " ++ toString (files.countP after.isBroken) ++
            " error(s)\n") ∧
      ∀ diff, (after.run (.reformat path ⟨true, diff, align⟩)).1.stdout =
        if files = [] then ""
          else "✓ " ++ toString files.length ++ " file(s) already formatted\n" := by
  intro write after files
  let config : LayoutConfig := { alignKeywords := align }
  have hafter : after = (tree.sources path).foldl (rewrite config) tree := by
    simp only [after, write, run_reformat _ hwritable]
    exact foldl_reformatted_of_not_isDryRun rfl tree _
  have hkeeps : tree.Keeps after := hafter ▸ .foldl (keeps_rewrite config) tree _
  have hsettled : ∀ p ∈ after.sources path, after.change? config p = none := by
    intro p hp
    rw [hkeeps.sources_eq] at hp
    rw [hafter]
    exact change?_foldl_rewrite hwritable hp
  have hchanges : after.changes config path = [] := List.filterMap_eq_nil_iff.mpr hsettled
  have hwritable' := hwritable.of_keeps hkeeps
  refine ⟨?_, ?_, fun diff => ?_⟩
  · simp only [write, run_reformat _ hwritable']
    rw [foldl_reformatted_of_not_isDryRun rfl]
    exact foldl_rewrite_of_settled hsettled
  · rw [← closing_of_write align hchanges]
    exact stdout_of_settled ⟨false, false, align⟩ hwritable' hchanges
  · rw [← closing_of_check diff align hchanges]
    exact stdout_of_settled ⟨true, diff, align⟩ hwritable' hchanges

theorem reformat_settles_links :
    let tree : FileTree := { entries := [
      (["a.res"], .file "BITMAP  a \"x.png\"\n".toUTF8),
      (["b.res"], .link "a.res"),
      (["c.res"], .hardLink ["a.res"]),
      (["d"], .directory),
      (["d", "e.res"], .link "../a.res"),
      (["d", "f.res"], .file "BITMAP\n".toUTF8)] }
    tree.Writable "." ∧
      let write : Request := .reformat "." ⟨false, false, true⟩
      let after := (tree.run write).2
      (tree.run write).1.stdout =
          "Formatted: ./a.res\n\n✓ 1 file(s) formatted, 1 error(s)\n" ∧
        (after.run write).2 = after ∧
        (after.run write).1.stdout = "\n✓ 0 file(s) formatted, 1 error(s)\n" ∧
        (after.run (.reformat "." ⟨true, false, true⟩)).1.stdout =
          "✓ 5 file(s) already formatted\n" := by
  intro tree
  have hwritable : tree.Writable "." := by decide +kernel
  obtain ⟨hagain, hformatted, hcheck⟩ := reformat_settles tree "." true hwritable
  refine ⟨hwritable, by decide +kernel, hagain, hformatted.trans ?_, (hcheck false).trans ?_⟩
  · decide +kernel
  · decide +kernel

end FileTree

end ResourceDecl
