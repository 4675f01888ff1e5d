import GoRefactor.Proofs.Edit.Apply
import GoRefactor.Proofs.Sort
import Mathlib.Data.List.Nodup

/-!
# Edits in order

Edits are put in order and checked as neighbours only. That is enough: of two edits of one file the
earlier ends before the later starts. So, made from the last to the first, every one of them meets
the text up to its own end as it was checked, and cuts it between characters.
-/

namespace GoRefactor

namespace Edit

/-- Edits are ordered by file, then by where they start, then by where they stop. -/
theorem le_iff (left right : Edit) :
    left.le right = true ↔
      left.file < right.file ∨ (left.file = right.file ∧
        (left.span.start < right.span.start ∨ (left.span.start = right.span.start ∧
          left.span.stop ≤ right.span.stop))) := by
  simp [Edit.le, Span.le]

/-- Of two edits one comes first. -/
theorem le_total (left right : Edit) : left.le right = true ∨ right.le left = true := by
  rw [le_iff, le_iff]
  grind

/-- The order of edits is transitive. -/
theorem le_trans (left middle right : Edit) (first : left.le middle = true)
    (second : middle.le right = true) : left.le right = true := by
  rw [le_iff] at *
  grind

/-- Dropping edits that do the same keeps the order of the others. -/
theorem distinctAfter_sublist (kept : Edit) (edits : List Edit) :
    (distinctAfter kept edits).Sublist edits := by
  induction edits generalizing kept with
  | nil => exact List.Sublist.refl _
  | cons edit rest ih =>
    rw [distinctAfter]
    split
    · exact (ih kept).cons edit
    · exact (ih edit).cons_cons edit

/-- Arranged edits are some of the sorted ones. -/
theorem arrange_sublist (edits : List Edit) : (arrange edits).Sublist (sortBy Edit.le edits) := by
  unfold arrange
  cases sortBy Edit.le edits with
  | nil => exact List.Sublist.refl _
  | cons first rest => exact (distinctAfter_sublist first rest).cons_cons first

/-- Arranged edits are in order. -/
theorem pairwise_arrange (edits : List Edit) :
    (arrange edits).Pairwise fun left right => left.le right = true :=
  (pairwise_sortBy le_total le_trans edits).sublist (arrange_sublist edits)

/-- Arranged edits are edits that were given. -/
theorem mem_of_mem_arrange {edits : List Edit} {edit : Edit} (member : edit ∈ arrange edits) :
    edit ∈ edits :=
  (mem_sortBy Edit.le edits edit).mp ((arrange_sublist edits).subset member)

/-- Edits in order that do different things stay as they are. -/
theorem arrange_of_pairwise {edits : List Edit}
    (sorted : edits.Pairwise fun left right => left.le right = true)
    (distinct : edits.Pairwise fun left right => left.sameEffect right = false) :
    arrange edits = edits := by
  have kept (first : Edit) (rest : List Edit)
      (distinct : (first :: rest).Pairwise fun left right => left.sameEffect right = false) :
      distinctAfter first rest = rest := by
    induction rest generalizing first with
    | nil => rfl
    | cons second others ih =>
      obtain ⟨below, later⟩ := List.pairwise_cons.mp distinct
      rw [distinctAfter, below second List.mem_cons_self, if_neg Bool.false_ne_true, ih _ later]
  rw [arrange, sortBy_of_pairwise sorted]
  cases edits with
  | nil => rfl
  | cons first rest =>
    dsimp only
    rw [kept first rest distinct]

/-- Edits that are told apart by their files and spans are all kept when they are put in order. -/
theorem perm_arrange {edits : List Edit}
    (distinct : (edits.map fun edit => (edit.file, edit.span)).Nodup) :
    (arrange edits).Perm edits := by
  have sorted := pairwise_sortBy le_total le_trans edits
  have perm := sortBy_perm Edit.le edits
  have different : (sortBy Edit.le edits).Pairwise fun left right =>
      left.sameEffect right = false := by
    have distinct' := ((perm.map fun edit => (edit.file, edit.span)).nodup_iff).mpr distinct
    refine (List.pairwise_map.mp distinct').imp fun {left right} apart => ?_
    by_contra same
    simp only [sameEffect, Bool.not_eq_false, Bool.and_eq_true, beq_iff_eq] at same
    exact apart (Prod.ext same.1.1 same.1.2)
  have kept := arrange_of_pairwise sorted different
  unfold arrange at kept ⊢
  rw [sortBy_of_pairwise sorted] at kept
  rw [kept]
  exact perm

/-- The order in which such edits are listed does not matter. -/
theorem arrange_eq_of_perm {edits other : List Edit} (perm : edits.Perm other)
    (distinct : (edits.map fun edit => (edit.file, edit.span)).Nodup) :
    arrange edits = arrange other := by
  have distinct' := ((perm.map fun edit => (edit.file, edit.span)).nodup_iff).mp distinct
  have arranged := ((perm_arrange distinct).trans perm).trans (perm_arrange distinct').symm
  refine arranged.eq_of_pairwise (fun left right member member' below above => ?_)
    (pairwise_arrange edits) (pairwise_arrange other)
  -- Edits with the same place are one edit.
  refine List.inj_on_of_nodup_map distinct (mem_of_mem_arrange member)
    (perm.mem_iff.mpr (mem_of_mem_arrange member')) ?_
  rw [le_iff] at below above
  have files : left.file = right.file := by grind
  have starts : left.span.start = right.span.start := by grind
  have stops : left.span.stop = right.span.stop := by grind
  have spans : left.span = right.span :=
    congrArg₂ Span.mk starts stops
  exact Prod.ext files spans

/-- Of two edits of one file the earlier ends before the later starts. -/
def Apart (edits : List Edit) : Prop :=
  edits.Pairwise fun earlier later =>
    earlier.file = later.file → earlier.span.stop ≤ later.span.start

/-- **Neighbours in order that do not overlap keep all edits apart.** -/
theorem apart_of_overlaps {edits : List Edit}
    (sorted : edits.Pairwise fun left right => left.le right = true)
    (upright : ∀ edit ∈ edits, edit.span.start ≤ edit.span.stop)
    (clear : (overlaps edits).head? = none) : Apart edits := by
  unfold Apart
  induction edits with
  | nil => exact .nil
  | cons first rest ih =>
    obtain ⟨below, later⟩ := List.pairwise_cons.mp sorted
    obtain ⟨upright₁, upright'⟩ := List.forall_mem_cons.mp upright
    cases rest with
    | nil => exact List.pairwise_singleton _ _
    | cons second others =>
      have clear' : (overlaps (second :: others)).head? = none ∧
          (first.file = second.file → first.span.overlaps second.span = false) := by
        rw [overlaps] at clear
        by_cases overlapping : (first.file == second.file && first.span.overlaps second.span) = true
        · rw [if_pos overlapping] at clear
          cases clear
        · rw [if_neg overlapping] at clear
          refine ⟨clear, fun same => ?_⟩
          simpa [same] using overlapping
      have further := ih later upright' clear'.1
      have order := (le_iff first second).mp (below second List.mem_cons_self)
      have next : first.file = second.file → first.span.stop ≤ second.span.start := by
        intro same
        have touching := clear'.2 same
        have stops := upright' second List.mem_cons_self
        simp only [Span.overlaps, Bool.and_eq_false_iff, decide_eq_false_iff_not] at touching
        rcases order with smaller | ⟨-, order⟩
        · rw [same] at smaller
          exact absurd smaller (String.lt_irrefl _)
        · omega
      refine List.pairwise_cons.mpr ⟨fun other member => ?_, further⟩
      rcases List.mem_cons.mp member with rfl | beyond
      · exact next
      · intro same
        -- A file in between is the same one.
        have order' := (le_iff second other).mp ((List.pairwise_cons.mp later).1 other beyond)
        have between : first.file = second.file := by grind
        have near := next between
        have starts : second.span.start ≤ other.span.start := by grind
        omega

/-- The edit's span cuts the text between characters. -/
def Cuts (edit : Edit) (content : String) : Prop :=
  ∃ front middle back, content = front ++ middle ++ back ∧
    front.utf8ByteSize = edit.span.start ∧
    front.utf8ByteSize + middle.utf8ByteSize = edit.span.stop

/-- Each of the edits, made after those behind it, cuts the text that it meets. -/
def AllCut : List Edit → String → Prop
  | [], _ => True
  | edit :: rest, content => edit.Cuts (spliceAll rest content) ∧ AllCut rest content

/-- Of two beginnings of one text the shorter begins the longer. -/
theorem begins_of_size_le {front back front' back' : String}
    (same : front ++ back = front' ++ back') (shorter : front.utf8ByteSize ≤ front'.utf8ByteSize) :
    ∃ between, front' = front ++ between := by
  have lists : front.toList ++ back.toList = front'.toList ++ back'.toList := by
    rw [← String.toList_append, ← String.toList_append, same]
  rcases List.append_eq_append_iff.mp lists with ⟨between, longer, -⟩ | ⟨between, longer, -⟩
  · refine ⟨String.ofList between, String.toList_inj.mp ?_⟩
    rw [longer, String.toList_append, String.toList_ofList]
  · -- Nothing can be left of the one that is no longer.
    have size := congrArg byteLength longer
    rw [byteLength_append, byteLength_toList, byteLength_toList] at size
    have none : between = [] := by
      cases between with
      | nil => rfl
      | cons c cs =>
        have positive := c.utf8Size_pos
        rw [byteLength_cons] at size
        omega
    rw [none, List.append_nil] at longer
    exact ⟨"", by rw [String.append_empty, String.toList_inj.mp longer]⟩

/-- Edits behind a cut leave the text in front of it. -/
theorem spliceAll_of_behind {edits : List Edit} {content front back : String}
    (cut : content = front ++ back) (cuts : ∀ edit ∈ edits, edit.Cuts content)
    (apart : edits.Pairwise fun earlier later => earlier.span.stop ≤ later.span.start)
    (behind : ∀ edit ∈ edits, front.utf8ByteSize ≤ edit.span.start) :
    ∃ back', spliceAll edits content = front ++ back' := by
  induction edits generalizing front back with
  | nil => exact ⟨back, cut⟩
  | cons edit rest ih =>
    obtain ⟨⟨before, middle, after, whole, start, stop⟩, cuts'⟩ := List.forall_mem_cons.mp cuts
    obtain ⟨first, apart'⟩ := List.pairwise_cons.mp apart
    -- The text up to the end of the edit is still there when the edit is made.
    obtain ⟨after', spliced⟩ := ih whole cuts' apart' fun other member => by
      rw [String.utf8ByteSize_append, stop]
      exact first other member
    have near := behind edit List.mem_cons_self
    rw [← start] at near
    obtain ⟨between, longer⟩ :=
      begins_of_size_le (cut.symm.trans (whole.trans String.append_assoc)) near
    have step : spliceAll (edit :: rest) content = before ++ edit.replacement ++ after' :=
      edit.splice_eq spliced start stop
    exact ⟨between ++ edit.replacement ++ after', by
      rw [step, longer, String.append_assoc, String.append_assoc, String.append_assoc]⟩

/-- **Edits that are apart and cut the text each meet a text that they cut.** -/
theorem allCut {edits : List Edit} {content : String} (cuts : ∀ edit ∈ edits, edit.Cuts content)
    (apart : edits.Pairwise fun earlier later => earlier.span.stop ≤ later.span.start) :
    AllCut edits content := by
  induction edits with
  | nil => trivial
  | cons edit rest ih =>
    obtain ⟨⟨before, middle, after, whole, start, stop⟩, cuts'⟩ := List.forall_mem_cons.mp cuts
    obtain ⟨first, apart'⟩ := List.pairwise_cons.mp apart
    obtain ⟨after', spliced⟩ := spliceAll_of_behind whole cuts' apart' fun other member => by
      rw [String.utf8ByteSize_append, stop]
      exact first other member
    exact ⟨⟨before, middle, after', spliced, start, stop⟩, ih cuts' apart'⟩

/-- The files of arranged edits are in order. -/
theorem files_arrange (edits : List Edit) : ((arrange edits).map (·.file)).Pairwise (· ≤ ·) := by
  refine List.pairwise_map.mpr ((pairwise_arrange edits).imp fun {left right} order => ?_)
  rcases (le_iff left right).mp order with smaller | ⟨same, -⟩
  · exact Std.le_of_lt smaller
  · exact Std.le_of_eq same

/-- Each file of arranged edits is met once. -/
theorem nodup_files_arrange (edits : List Edit) :
    (dropRepeats ((arrange edits).map (·.file))).Nodup :=
  (pairwise_dropRepeats (fun _ _ => String.le_antisymm) (files_arrange edits)).imp And.right

/-- Edits that cover text, by files in order and apart, are what any list of them is arranged to. -/
theorem Apart.arrange_eq {edits other : List Edit} (apart : Apart edits)
    (files : (edits.map (·.file)).Pairwise (· ≤ ·))
    (filled : ∀ edit ∈ edits, edit.span.start < edit.span.stop) (perm : other.Perm edits) :
    arrange other = edits := by
  have ordered : edits.Pairwise fun left right => left.file < right.file ∨
      (left.file = right.file ∧ left.span.start < right.span.start ∧
        left.span.stop ≤ right.span.stop) := by
    refine ((List.pairwise_map.mp files).and apart).imp_of_mem fun {left right} member member' => ?_
    rintro ⟨below, ends⟩
    have upright := filled left member
    have upright' := filled right member'
    by_cases same : left.file = right.file
    · have before := ends same
      exact Or.inr ⟨same, by omega, by omega⟩
    · exact Or.inl (Std.lt_of_le_of_ne below same)
  have distinct : (edits.map fun edit => (edit.file, edit.span)).Nodup := by
    refine List.pairwise_map.mpr (ordered.imp fun {left right} order same => ?_)
    obtain ⟨files, spans⟩ := Prod.mk.inj same
    rcases order with smaller | ⟨-, before, -⟩
    · exact String.lt_irrefl _ (files ▸ smaller)
    · rw [spans] at before
      exact Nat.lt_irrefl _ before
  rw [← arrange_eq_of_perm perm.symm distinct]
  refine arrange_of_pairwise (ordered.imp fun {left right} order => ?_)
    (ordered.imp fun {left right} order => ?_)
  · rw [le_iff]
    exact order.imp id fun ⟨same, before, _⟩ => ⟨same, Or.inl before⟩
  · rw [Bool.eq_false_iff]
    intro same
    simp only [sameEffect, Bool.and_eq_true, beq_iff_eq] at same
    rcases order with smaller | ⟨-, before, -⟩
    · exact String.lt_irrefl _ (same.1.1 ▸ smaller)
    · rw [same.1.2] at before
      exact Nat.lt_irrefl _ before

/-- The edits of one file are apart as they are. -/
theorem Apart.of_file {edits : List Edit} (apart : Apart edits) (path : String) :
    (edits.filter fun edit => edit.file == path).Pairwise fun earlier later =>
      earlier.span.stop ≤ later.span.start := by
  refine (List.Pairwise.filter _ apart).imp_of_mem fun {earlier later} first second ends => ends ?_
  have here {edit : Edit} (member : edit ∈ edits.filter fun edit => edit.file == path) :
      edit.file = path := eq_of_beq (List.mem_filter.mp member).2
  rw [here first, here second]

end Edit

namespace Module

/-- What the checks of edits find when nothing is refused: every edit cuts the text of its file, and
no two meet. -/
theorem checked_of_fits {module : Module} {edits : List Edit}
    (clear : (Edit.overlaps (Edit.arrange edits)).head? = none)
    (fits : (dropRepeats ((Edit.arrange edits).map (·.file))).findSome? (fun path =>
      module.editConflict? path ((Edit.arrange edits).filter fun edit => edit.file == path)) =
        none) :
    Edit.Apart (Edit.arrange edits) ∧
      ∀ edit ∈ Edit.arrange edits, ∃ file, module.file? edit.file = some file ∧
        edit.Cuts file.content := by
  have each : ∀ edit ∈ Edit.arrange edits, ∃ file, module.file? edit.file = some file ∧
      edit.Cuts file.content := by
    intro edit member
    have listed : edit.file ∈ dropRepeats ((Edit.arrange edits).map (·.file)) :=
      mem_dropRepeats.mpr (List.mem_map_of_mem member)
    have quiet := List.findSome?_eq_none_iff.mp fits edit.file listed
    unfold editConflict? at quiet
    cases held : module.file? edit.file with
    | none =>
      rw [held] at quiet
      cases quiet
    | some file =>
      rw [held] at quiet
      refine ⟨file, rfl, Edit.cut_of_conflict? ?_⟩
      exact List.findSome?_eq_none_iff.mp quiet edit (List.mem_filter.mpr ⟨member, by simp⟩)
  refine ⟨Edit.apart_of_overlaps (Edit.pairwise_arrange edits) (fun edit member => ?_) clear, each⟩
  obtain ⟨file, -, front, middle, back, -, start, stop⟩ := each edit member
  omega

/-- Edits that put text in place of what they say stands there, with its hash, were planned on the
texts of the module. -/
theorem planned_of_slices {module : Module} {edits : List Edit}
    (hashed : ∀ edit ∈ edits, edit.expected = sha256 edit.replaced)
    (covers : ∀ edit ∈ edits, ((module.file? edit.file).bind fun file =>
      edit.span.slice? file.content) = some edit.replaced) :
    ∀ edit ∈ edits, ∃ file, module.file? edit.file = some file ∧
      Edit.replace? edit.file file.content edit.span edit.replacement = some edit := by
  intro edit member
  obtain ⟨file, held, covered⟩ := Option.bind_eq_some_iff.mp (covers edit member)
  exact ⟨file, held, by rw [Edit.replace?, covered, Option.map_some, ← hashed edit member]⟩

/-- Apply edits without asking whether the texts changed since they were planned. -/
def applyPlanned (module : Module) (edits : List Edit) : Attempt (Module × List String) := do
  let arranged := Edit.arrange edits
  let paths := dropRepeats (arranged.map (·.file))
  match (Edit.overlaps arranged).head? with
  | some conflict => Attempt.refuse (.apply conflict)
  | none =>
    let edited ← ExceptT.lift (module.editFiles arranged paths)
    return (edited.touch, paths)

/-- **Edits that were planned on the texts of the module need no such question.** -/
theorem applyEdits_eq_applyPlanned {module : Module} {edits : List Edit}
    (planned : ∀ edit ∈ edits, ∃ file, module.file? edit.file = some file ∧
      Edit.replace? edit.file file.content edit.span edit.replacement = some edit) :
    module.applyEdits edits = module.applyPlanned edits := by
  have fits : (dropRepeats ((Edit.arrange edits).map (·.file))).findSome? (fun path =>
      module.editConflict? path ((Edit.arrange edits).filter fun edit => edit.file == path)) =
        none := by
    refine List.findSome?_eq_none_iff.mpr fun path listed => ?_
    obtain ⟨edit, member, rfl⟩ := List.mem_map.mp (mem_dropRepeats.mp listed)
    obtain ⟨file, held, -⟩ := planned edit (Edit.mem_of_mem_arrange member)
    rw [editConflict?, held]
    refine List.findSome?_eq_none_iff.mpr fun other among => ?_
    obtain ⟨inside, same⟩ := List.mem_filter.mp among
    obtain ⟨file', held', made⟩ := planned other (Edit.mem_of_mem_arrange inside)
    rw [eq_of_beq same, held] at held'
    cases held'
    exact Edit.conflict?_of_replace? made
  unfold applyEdits applyPlanned
  dsimp only
  cases (Edit.overlaps (Edit.arrange edits)).head? with
  | some conflict => rfl
  | none => rw [fits]

/-- **Edits that are not refused are made at cuts between characters**, file by file and from the
last to the first. -/
theorem allCut_of_accepted {module : Module} {edits : List Edit}
    (accepted : ∀ error, (module.applyEdits edits).run ≠ .ok (.error error))
    {path : String} {file : SourceFile} (held : module.file? path = some file) :
    Edit.AllCut ((Edit.arrange edits).filter fun edit => edit.file == path) file.content := by
  unfold applyEdits at accepted
  simp only at accepted
  split at accepted
  · exact absurd rfl (accepted _)
  · rename_i clear
    split at accepted
    · exact absurd rfl (accepted _)
    · rename_i fits
      obtain ⟨apart, each⟩ := checked_of_fits clear fits
      refine Edit.allCut (fun edit member => ?_) (apart.of_file path)
      obtain ⟨listed, same⟩ := List.mem_filter.mp member
      obtain ⟨found, held', cuts⟩ := each edit listed
      rw [eq_of_beq same, held] at held'
      cases held'
      exact cuts

/-- Edits end where those that pass the checks can be made. -/
theorem ends_applyEdits {module : Module} {edits : List Edit}
    (carried : (Edit.overlaps (Edit.arrange edits)).head? = none →
      (dropRepeats ((Edit.arrange edits).map (·.file))).findSome? (fun path =>
        module.editConflict? path ((Edit.arrange edits).filter fun edit => edit.file == path)) =
          none →
      ∃ edited, module.editFiles (Edit.arrange edits)
        (dropRepeats ((Edit.arrange edits).map (·.file))) = .ok edited) :
    Attempt.Ends (module.applyEdits edits) := by
  unfold applyEdits
  simp only
  split
  · exact Attempt.ends_refuse _
  · rename_i clear
    split
    · exact Attempt.ends_refuse _
    · rename_i fits
      obtain ⟨edited, done⟩ := carried clear fits
      rw [done]
      exact Attempt.ends_bind ⟨.ok edited, rfl⟩ fun _ _ => Attempt.ends_pure _

end Module

end GoRefactor
