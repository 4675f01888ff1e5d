import GoRefactor.Proofs.Edit.LaidOut
import GoRefactor.Proofs.Go.Bare

/-!
# Names of a file after edits

Edits that put names in place of names move different places between lexemes to different places. So
a file that keeps to its lexemes and passes no name twice does so afterwards, and where all
declarations are kept, it has the bare names that it had, exchanged and moved.
-/

namespace GoRefactor

open Lexeme

namespace Lexeme.Relabels

variable {lexemes lexemes' : List Lexeme} {edits : List Edit}
  (relabels : Relabels 0 lexemes edits lexemes') (solid : Solid lexemes)

include relabels solid

/-- Places that become the same were the same. -/
theorem place_inj {count count' : Nat} (same : place lexemes' count = place lexemes' count') :
    place lexemes count = place lexemes count' := by
  have wlog {low high : Nat} (order : low ≤ high)
      (same : place lexemes' low = place lexemes' high) :
      place lexemes low = place lexemes high := by
    have taken := congrArg List.length
      (take_eq_of_place_le (relabels.solid solid) order (Nat.le_of_eq same.symm))
    rw [List.length_take, List.length_take, relabels.length_eq] at taken
    rw [place, place, List.take_eq_take_iff.mpr taken]
  rcases Nat.le_total count count' with more | fewer
  · exact wlog more same
  · exact (wlog fewer same.symm).symm

variable (fits : byteLength (flat lexemes) < 2 ^ 63) (fits' : byteLength (flat lexemes') < 2 ^ 63)

include fits fits'

open Classical in
/-- The edits move places between lexemes as an injection does that moves all other offsets behind
the new text. -/
theorem exists_injective : ∃ move : Nat → Nat, move.Injective ∧
    ∀ count, move (place lexemes count) =
      Edit.moveOffset (edits.map Edit.shift) (place lexemes count) := by
  have moves (count : Nat) := relabels.moveOffset_eq solid fits fits' count
  let move (offset : Nat) : Nat :=
    if ∃ count, offset = place lexemes count then Edit.moveOffset (edits.map Edit.shift) offset
    else byteLength (flat lexemes') + 1 + offset
  have placed (count : Nat) : move (place lexemes count) = place lexemes' count :=
    (if_pos ⟨count, rfl⟩).trans (moves count)
  have inside (count : Nat) : place lexemes' count ≤ byteLength (flat lexemes') :=
    byteLength_flat_take_le lexemes' count
  refine ⟨move, fun first second same => ?_, fun count => if_pos ⟨count, rfl⟩⟩
  by_cases here : ∃ count, first = place lexemes count
  · obtain ⟨count, rfl⟩ := here
    rw [placed] at same
    by_cases there : ∃ count, second = place lexemes count
    · obtain ⟨count', rfl⟩ := there
      rw [placed] at same
      exact relabels.place_inj solid same
    · have beyond : move second = _ := if_neg there
      have := inside count
      omega
  · have beyond : move first = _ := if_neg here
    by_cases there : ∃ count, second = place lexemes count
    · obtain ⟨count', rfl⟩ := there
      rw [placed] at same
      have := inside count'
      omega
    · have beyond' : move second = _ := if_neg there
      omega

end Lexeme.Relabels

namespace SourceFile

variable {file image : SourceFile} {edits : List Edit} {lexemes lexemes' : List Lexeme}

namespace LaidOut

variable (laid : file.LaidOut lexemes) (relabels : Relabels 0 lexemes edits lexemes')
  (fits : byteLength (flat lexemes) < 2 ^ 63) (fits' : byteLength (flat lexemes') < 2 ^ 63)
  (applied : Edit.applyToFile edits file = .ok image)

include laid relabels fits fits' applied

/-- What the edits make of a file is the file visited, different spans moved to different ones. -/
theorem exists_moving : ∃ move : Nat → Nat,
    (∀ count, move (place lexemes count) =
      Edit.moveOffset (edits.map Edit.shift) (place lexemes count)) ∧
    let visitor := SpanVisitor.moving move fun name span =>
      (Edit.replacementAt edits span).getD name
    visitor.place.Injective ∧ image = SourceFile.rekey
      (visitor.file { file with content := Edit.spliceAll edits file.content }) := by
  let edited : SourceFile := { file with content := Edit.spliceAll edits file.content }
  obtain ⟨move, inj, agrees⟩ := relabels.exists_injective laid.solid fits fits'
  have carries := relabels.carries laid.solid fits fits' True
  have fixed : edited.FixedBy (marks True lexemes).guard :=
    ⟨laid.fixed.package, laid.fixed.imports, laid.fixed.decls⟩
  refine ⟨move, agrees, ?_, ?_⟩
  · rintro ⟨start, stop⟩ ⟨start', stop'⟩ same
    obtain ⟨first, last⟩ := Span.mk.inj same
    exact congrArg₂ Span.mk (inj first) (inj last)
  · refine Except.ok.inj (applied.symm.trans (bind_eq_ok.mpr ⟨_, ?_, rfl⟩))
    refine Marks.file_eq fixed (fun span spans => ?_) fun name span _ _ => Edit.remap_name _ _ _
    obtain ⟨⟨first, start⟩, ⟨last, stop⟩, -⟩ := id spans
    rw [start, stop, agrees, agrees, ← start, ← stop]
    refine (Edit.remap_span edits span.start span.stop).trans (Span.between_of_le ?_)
    exact carries.mono _ _ spans.1 spans.2.1 spans.2.2

/-- **Names in place of names leave a tidy file.** -/
theorem tidy_applyToFile (tidy : file.Tidy) : image.Tidy := by
  obtain ⟨move, -, inj, rfl⟩ := laid.exists_moving relabels fits fits' applied
  have same : Tidy { file with content := Edit.spliceAll edits file.content } :=
    ⟨tidy.types, tidy.functions, tidy.values, tidy.apart⟩
  exact same.relocated inj

/-- **Bare names between lexemes stay**, exchanged and moved, if no declaration gets lost. -/
theorem mem_bare_applyToFile (kept : file.decls.length ≤ image.decls.length) {name : String}
    {count count' : Nat} (bare : (name, ⟨place lexemes count, place lexemes count'⟩) ∈ file.bare) :
    ((Edit.replacementAt edits ⟨place lexemes count, place lexemes count'⟩).getD name,
      ⟨Edit.moveOffset (edits.map Edit.shift) (place lexemes count),
        Edit.moveOffset (edits.map Edit.shift) (place lexemes count')⟩) ∈ image.bare := by
  obtain ⟨move, agrees, inj, rfl⟩ := laid.exists_moving relabels fits fits' applied
  have fewer := decls_rekey ((SpanVisitor.moving move fun name span =>
    (Edit.replacementAt edits span).getD name).file
      { file with content := Edit.spliceAll edits file.content })
  rw [decls_visit] at fewer
  have all := fewer.perm_of_length_le ((List.length_map _).trans_le kept)
  obtain ⟨decl, held, inside⟩ := List.mem_flatMap.mp bare
  refine List.mem_flatMap.mpr ⟨_, all.mem_iff.mpr (List.mem_map_of_mem held), ?_⟩
  rw [SpanVisitor.bare_topDecl inj]
  refine List.mem_map.mpr ⟨_, inside, ?_⟩
  exact Prod.ext rfl (congrArg₂ Span.mk (agrees count) (agrees count'))

end LaidOut

end SourceFile

end GoRefactor
