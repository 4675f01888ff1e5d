import GoRefactor.Edit.Apply
import GoRefactor.Proofs.Attempt
import GoRefactor.Proofs.Module.Files
import Mathlib.Algebra.Group.Nat.Defs
import Mathlib.Algebra.Ring.Int.Defs

/-!
# What applying edits does

Edits that pass the checks put their replacements in place of their spans. The laws here say what
a splice gives, that a file's text after edits is the spliced one, and what a module is after
edits that were accepted.
-/

namespace GoRefactor

/-- Numbers of a moderate size are signed words. -/
theorem signedWord_eq {value : Int} (low : -2 ^ 63 ≤ value) (high : value < 2 ^ 63) :
    signedWord value = value := by
  unfold signedWord
  apply Int.bmod_eq_of_le <;> simp only [UInt64.size] <;> omega

/-- Offsets are moved by the distance, up to the bound of what is addressed. -/
theorem shiftOffset_eq {delta : Int} {offset offset' : Nat}
    (moved : (offset : Int) + delta = offset') (small : offset' < 2 ^ 63) :
    shiftOffset delta offset = offset' := by
  have sum : signedWord (signedWord offset + delta) = signedWord (offset + delta) :=
    Int.bmod_add_bmod
  rw [shiftOffset, sum, moved, signedWord_eq (by omega) (by omega), Int.toNat_natCast]

/-- Ends in order make a span. -/
theorem Span.between_of_le {start stop : Nat} (order : start ≤ stop) :
    Span.between start stop = .ok ⟨start, stop⟩ := by
  unfold Span.between Span.between?
  rw [if_pos order]

/-- A span between two offsets is the one with these ends. -/
theorem Span.eq_of_between {start stop : Nat} {span : Span}
    (made : Span.between start stop = .ok span) : span = ⟨start, stop⟩ := by
  unfold Span.between Span.between? at made
  by_cases order : start ≤ stop
  · rw [if_pos order] at made
    exact (Except.ok.inj made).symm
  · rw [if_neg order] at made
    cases made

/-- Edits move a span by moving both of its ends. -/
theorem Edit.remap_span (edits : List Edit) (start stop : Nat) :
    (remap edits).span ⟨start, stop⟩ =
      Span.between (moveOffset (edits.map shift) start) (moveOffset (edits.map shift) stop) := by
  simp only [remap]

/-- Edits make of a name what is put in place of its span, if anything is. -/
theorem Edit.remap_name (edits : List Edit) (name : String) (span : Span) :
    (remap edits).name name span = .ok ((replacementAt edits span).getD name) := by
  simp only [remap]

namespace Edit

/-- A splice at a span that cuts between characters replaces what stands there. -/
theorem splice_eq (edit : Edit) {content front middle back : String}
    (cut : content = front ++ middle ++ back) (start : front.utf8ByteSize = edit.span.start)
    (stop : front.utf8ByteSize + middle.utf8ByteSize = edit.span.stop) :
    edit.splice content = front ++ edit.replacement ++ back := by
  have before : textBetween? content 0 edit.span.start = some front := by
    rw [textBetween?_eq_some_iff (Nat.zero_le _)]
    exact ⟨"", middle ++ back, by rw [cut, String.empty_append, String.append_assoc],
      String.utf8ByteSize_empty, by omega⟩
  have length : content.utf8ByteSize = edit.span.stop + back.utf8ByteSize := by
    rw [cut, String.utf8ByteSize_append, String.utf8ByteSize_append]
    omega
  have behind : textBetween? content edit.span.stop content.utf8ByteSize = some back := by
    rw [textBetween?_eq_some_iff (by omega)]
    exact ⟨front ++ middle, "", by rw [cut, String.append_empty],
      by rw [String.utf8ByteSize_append, stop], by omega⟩
  unfold splice
  rw [before, behind]

/-- An edit that was planned on a text fits it. -/
theorem conflict?_of_replace? {path content replacement : String} {span : Span} {edit : Edit}
    (planned : replace? path content span replacement = some edit) :
    edit.conflict? content = none := by
  obtain ⟨text, covers, rfl⟩ := Option.map_eq_some_iff.mp planned
  obtain ⟨order, front, back, whole, start, length⟩ := Span.slice?_eq_some_iff.mp covers
  have within : ¬(span.stop > content.utf8ByteSize || span.start > span.stop) = true := by
    rw [whole, String.utf8ByteSize_append, String.utf8ByteSize_append, Bool.or_eq_true,
      decide_eq_true_eq, decide_eq_true_eq]
    omega
  simp only [conflict?, if_neg within, covers, beq_self_eq_true, if_true]

/-- An edit without conflict cuts the text between characters. -/
theorem cut_of_conflict? {edit : Edit} {content : String} (fits : edit.conflict? content = none) :
    ∃ front middle back, content = front ++ middle ++ back ∧
      front.utf8ByteSize = edit.span.start ∧
      front.utf8ByteSize + middle.utf8ByteSize = edit.span.stop := by
  unfold conflict? at fits
  simp only at fits
  split at fits
  · cases fits
  · cases sliced : edit.span.slice? content with
    | none =>
      rw [sliced] at fits
      cases fits
    | some middle =>
      obtain ⟨order, front, back, cut, start, length⟩ := Span.slice?_eq_some_iff.mp sliced
      exact ⟨front, middle, back, cut, start, by omega⟩

end Edit

/-- A walk that ends keeps the path, the text and the flags of a file. -/
theorem SpanVisitor.file_keeps {visitor : SpanVisitor (Except Fault)} {source moved : SourceFile}
    (walked : visitor.file source = .ok moved) :
    moved.path = source.path ∧ moved.content = source.content ∧
      moved.isTest = source.isTest ∧ moved.modified = source.modified := by
  unfold SpanVisitor.file at walked
  obtain ⟨_, -, walked⟩ := bind_eq_ok.mp walked
  obtain ⟨_, -, walked⟩ := bind_eq_ok.mp walked
  obtain ⟨_, -, walked⟩ := bind_eq_ok.mp walked
  obtain ⟨_, -, walked⟩ := bind_eq_ok.mp walked
  obtain ⟨_, -, walked⟩ := bind_eq_ok.mp walked
  obtain ⟨_, -, walked⟩ := bind_eq_ok.mp walked
  obtain ⟨_, -, walked⟩ := bind_eq_ok.mp walked
  obtain ⟨_, -, walked⟩ := bind_eq_ok.mp walked
  cases walked
  exact ⟨rfl, rfl, rfl, rfl⟩

namespace Edit

/-- Edits splice a file's text and keep its path. -/
theorem applyToFile_keeps {edits : List Edit} {file moved : SourceFile}
    (applied : applyToFile edits file = .ok moved) :
    moved.path = file.path ∧ moved.content = spliceAll edits file.content ∧
      moved.isTest = file.isTest ∧ moved.modified = file.modified := by
  unfold applyToFile at applied
  obtain ⟨walkedFile, walked, applied⟩ := bind_eq_ok.mp applied
  cases applied
  exact SpanVisitor.file_keeps walked

end Edit

namespace Module

/-- What accepted edits found and did: nothing overlaps, every edit fits its file, and the files
were edited one after the other. -/
theorem applyEdits_eq_ok {module edited : Module} {edits : List Edit} {paths : List String} :
    (module.applyEdits edits).run = .ok (.ok (edited, paths)) ↔
      paths = dropRepeats ((Edit.arrange edits).map (·.file)) ∧
      (Edit.overlaps (Edit.arrange edits)).head? = none ∧
      (paths.findSome? fun path =>
        module.editConflict? path ((Edit.arrange edits).filter fun edit => edit.file == path)) =
          none ∧
      ∃ spliced, module.editFiles (Edit.arrange edits) paths = .ok spliced ∧
        edited = spliced.touch := by
  unfold applyEdits
  simp only
  cases overlapping : (Edit.overlaps (Edit.arrange edits)).head? with
  | some conflict => simp
  | none =>
    simp only [true_and]
    cases conflicting : (dropRepeats ((Edit.arrange edits).map (·.file))).findSome? fun path =>
        module.editConflict? path ((Edit.arrange edits).filter fun edit => edit.file == path) with
    | some conflict =>
      constructor
      · intro applied
        cases applied
      · rintro ⟨rfl, fits, -⟩
        rw [conflicting] at fits
        cases fits
    | none =>
      simp only
      rw [Attempt.run_bind_eq_ok]
      constructor
      · rintro ⟨spliced, run, given⟩
        have same : spliced.touch = edited ∧
            dropRepeats ((Edit.arrange edits).map (·.file)) = paths := by
          simpa [ExceptT.run, pure, ExceptT.pure, ExceptT.mk, Except.pure] using given
        obtain ⟨rfl, rfl⟩ := same
        refine ⟨rfl, conflicting, spliced, ?_, rfl⟩
        cases files : module.editFiles (Edit.arrange edits)
            (dropRepeats ((Edit.arrange edits).map (·.file))) with
        | error fault =>
          rw [files] at run
          cases run
        | ok found =>
          rw [files] at run
          have equal : found = spliced := by
            simpa [ExceptT.run, ExceptT.lift, ExceptT.mk, Functor.map, Except.map] using run
          rw [equal]
      · rintro ⟨rfl, -, spliced, files, rfl⟩
        refine ⟨spliced, ?_, rfl⟩
        rw [files]
        rfl

/-- A single accepted edit fits its file, and changes nothing but that file and the revision. -/
theorem applyEdits_single {module edited : Module} {edit : Edit} {paths : List String}
    (applied : (module.applyEdits [edit]).run = .ok (.ok (edited, paths))) :
    ∃ file moved, module.file? edit.file = some file ∧ edit.conflict? file.content = none ∧
      Edit.applyToFile [edit] file = .ok moved ∧
      edited = ((module.updateFile edit.file fun _ => moved).markModified edit.file).touch := by
  obtain ⟨rfl, -, fits, spliced, files, rfl⟩ := applyEdits_eq_ok.mp applied
  have alone : Edit.arrange [edit] = [edit] := rfl
  have here : ([edit].filter fun other => other.file == edit.file) = [edit] := by simp
  have one : dropRepeats (([edit] : List Edit).map (·.file)) = [edit.file] := rfl
  rw [alone, one] at fits files
  rw [List.findSome?_singleton, here, editConflict?] at fits
  rw [editFiles, List.foldlM_cons, editFile, here] at files
  cases held : module.file? edit.file with
  | none =>
    rw [held] at fits
    cases fits
  | some file =>
    rw [held] at fits files
    simp only [List.findSome?_singleton] at fits
    obtain ⟨next, edited, last⟩ := bind_eq_ok.mp files
    obtain ⟨moved, applied, returned⟩ := bind_eq_ok.mp edited
    cases last
    exact ⟨file, moved, rfl, fits, applied, congrArg touch (Except.ok.inj returned).symm⟩

end Module

end GoRefactor
