import GoRefactor.Proofs.Transform.ExtractionSafety
import GoRefactor.Proofs.Transform.SharedSuffix

/-!
# Calls without faults

Indexes, renames and extractions on a module from source text, one after the other and in any order:
none of them faults, as long as no file grows out of bounds. A scan lays its files out, and every
call keeps them so. Where calls cut texts and count in them, they stay in range, whatever module
they are given.
-/

namespace GoRefactor

/-! ## In range -/

/-- A search among line starts finds the offset itself, or a place behind the first of them, and an
earlier offset in front of that place. -/
theorem LineIndex.search_spec (offset : Nat) (breaks : List Nat) :
    match search offset (0 :: breaks) with
    | .ok place => (0 :: breaks)[place]? = some offset
    | .error place => 0 < place ∧ ∃ start, (0 :: breaks)[place - 1]? = some start ∧
      start ≤ offset := by
  rw [search]
  split
  · rename_i place found
    split at found
    · cases found
      assumption
    · cases found
  · rename_i place found
    split at found
    · cases found
    · rename_i missing
      cases found
      have positive : 0 < offset := by
        by_contra zero
        obtain rfl : offset = 0 := Nat.eq_zero_of_not_pos zero
        exact missing rfl
      have passed : 0 < ((0 :: breaks).takeWhile (· < offset)).length := by
        rw [List.takeWhile_cons, if_pos (decide_eq_true positive)]
        exact Nat.succ_pos _
      have last := Nat.sub_lt passed Nat.one_pos
      have listed := (List.takeWhile_prefix (· < offset)).getElem last
      have less := List.mem_takeWhile_imp (List.getElem_mem last)
      exact ⟨passed, _, List.getElem?_eq_some_iff.mpr ⟨_, listed.symm⟩,
        Nat.le_of_lt (of_decide_eq_true less)⟩

/-- **The line of an offset is found, and the offset is not in front of its start.** -/
theorem LineIndex.position_spec (index : LineIndex) (offset : Nat) :
    (∀ place, search (min offset index.length) index.starts = .error place → 0 < place) ∧
    ∃ start, index.starts[index.lineOf (min offset index.length)]? = some start ∧
      start ≤ min offset index.length ∧
      index.position offset = ⟨UInt32.ofNat (index.lineOf (min offset index.length)) + 1,
        UInt32.ofNat (min offset index.length - start) + 1⟩ := by
  have found := search_spec (min offset index.length) index.breaks
  have line : ∃ start, index.starts[index.lineOf (min offset index.length)]? = some start ∧
      start ≤ min offset index.length := by
    rw [lineOf, starts]
    split <;> rename_i place outcome <;> rw [outcome] at found
    · exact ⟨_, found, Nat.le_refl _⟩
    · exact found.2
  refine ⟨fun place outcome => ?_, ?_⟩
  · rw [starts] at outcome
    rw [outcome] at found
    exact found.1
  · obtain ⟨start, listed, behind⟩ := line
    refine ⟨start, listed, behind, ?_⟩
    rw [position, List.getD_eq_getElem?_getD, listed]
    rfl

namespace Naming

/-- **No name has fewer words than it shares with others.** -/
theorem length_shared_le {names : List (List Char)} {name : List Char} (member : name ∈ names) :
    (commonStartAll (names.map fun name => (camelWords name).reverse)).length ≤
      (camelWords name).length := by
  have shared := length_sharedWords_le member
  rwa [sharedWords, List.length_reverse] at shared

end Naming

/-- **What is put at the end of a file holds the declaration.** -/
theorem ExtractionPlan.rendered_size_le {texts : String → Option String}
    {interfaces : List PlannedInterface} (planned : PlannedOn texts interfaces)
    {interface : PlannedInterface} (member : interface ∈ interfaces) {edit : Edit}
    (appended : interface.placement = .append edit) :
    interface.rendered.utf8ByteSize ≤ edit.replacement.utf8ByteSize := by
  induction interfaces generalizing texts with
  | nil => cases member
  | cons first rest ih =>
    rcases List.mem_cons.mp member with rfl | later
    · obtain ⟨⟨package, path, name, rendered, rfl⟩, -⟩ := planned
      cases known : texts path with
      | none =>
        rw [known] at appended
        cases appended
      | some content =>
        rw [known] at appended
        cases appended
        exact SourceFile.size_le_appendEdit path content rendered
    · exact ih planned.2 later

/-! ## One call after the other -/

/-- What can be asked of a module. -/
inductive Call where
  /-- Build an index. -/
  | index (options : IndexOptions)
  /-- Rename. -/
  | rename (options : RenameOptions)
  /-- Extract interfaces, with names from anywhere. -/
  | extract (options : ExtractionOptions) (naming : MethodPattern → String)

namespace Call

/-- The module after a call, whether it was refused or not. -/
def run : Call → Module → Except Fault Module
  | .index options, module => (module.index options).run.map fun _ => module
  | .rename options, module => (options.run module).map Prod.fst
  | .extract options naming, module => (options.run naming module).map Prod.fst

/-- The texts that a call puts in place of others, or into new files. -/
def writes : Call → Module → List String
  | .index _, _ => []
  | .rename options, module => options.writes module
  | .extract options naming, module => options.writes naming module

/-- The module after several calls. -/
def runAll (calls : List Call) (module : Module) : Except Fault Module :=
  calls.foldlM (fun module call => call.run module) module

/-- No text that the calls write, one call after the other, is too long. -/
def AllFit : List Call → Module → Prop
  | [], _ => True
  | call :: rest, module =>
    (∀ text ∈ call.writes module, text.utf8ByteSize < 2 ^ 32) ∧
      match call.run module with
      | .ok next => AllFit rest next
      | .error _ => True

/-- Whether the texts fit can be evaluated. -/
instance decidableAllFit : ∀ (calls : List Call) (module : Module), Decidable (AllFit calls module)
  | [], _ => .isTrue trivial
  | call :: rest, module =>
    have : Decidable (match call.run module with
        | .ok next => AllFit rest next
        | .error _ => True) :=
      match call.run module with
      | .ok next => decidableAllFit rest next
      | .error _ => .isTrue trivial
    inferInstanceAs (Decidable (_ ∧ _))

variable {module : Module}

/-- A call on files that are laid out ends, and leaves them laid out. -/
theorem run_laidOut (laid : module.LaidOut) (small : module.Small) (call : Call)
    (fits : ∀ text ∈ call.writes module, text.utf8ByteSize < 2 ^ 32) :
    ∃ next, call.run module = .ok next ∧ next.LaidOut ∧ next.Small := by
  have fits : ∀ text ∈ call.writes module, text.utf8ByteSize < 2 ^ 63 := fun text written =>
    Nat.lt_trans (fits text written) (by decide)
  cases call with
  | index options =>
    obtain ⟨result, built⟩ := laid.ends_index options
    exact ⟨module, by rw [run, built]; rfl, laid, small⟩
  | rename options =>
    obtain ⟨final, outcome, ran, facts⟩ := options.run_laidOut laid small fits
    exact ⟨final, by rw [run, ran]; rfl, facts⟩
  | extract options naming =>
    obtain ⟨final, outcome, ran, facts⟩ := options.run_laidOut laid small naming fits
    exact ⟨final, by rw [run, ran]; rfl, facts⟩

/-- Calls on files that are laid out end, and leave them laid out. -/
theorem runAll_laidOut (laid : module.LaidOut) (small : module.Small) {calls : List Call}
    (fits : AllFit calls module) :
    ∃ final, runAll calls module = .ok final ∧ final.LaidOut ∧ final.Small := by
  induction calls generalizing module with
  | nil => exact ⟨module, rfl, laid, small⟩
  | cons call rest ih =>
    obtain ⟨here, later⟩ := fits
    obtain ⟨next, ran, laid', small'⟩ := call.run_laidOut laid small here
    rw [ran] at later
    obtain ⟨final, ran', facts⟩ := ih laid' small' later
    refine ⟨final, ?_, facts⟩
    rw [runAll, List.foldlM_cons]
    exact bind_eq_ok.mpr ⟨next, ran, ran'⟩

end Call

/-- **Calls on a module from source text never fault**, as long as all texts stay short. Texts are
only cut between characters, and what is subtracted or looked up in them is in range. -/
theorem calls_never_fault (path : String) (sources : List (String × String)) (module : Module)
    (calls : List Call) (loaded : Module.ofSources path sources = .ok module)
    (short : ∀ source ∈ sources, source.2.utf8ByteSize < 2 ^ 32)
    (fits : Call.AllFit calls module) :
    (∃ final, Call.runAll calls module = .ok final) ∧
    (∀ (state : Module) (edits : List Edit),
      (∀ error, (state.applyEdits edits).run ≠ .ok (.error error)) →
      ∀ path file, state.file? path = some file →
        Edit.AllCut ((Edit.arrange edits).filter fun edit => edit.file == path) file.content) ∧
    (∀ (state : Module) (options : ExtractionOptions) (naming : MethodPattern → String)
      (plan : ExtractionPlan), (options.plan naming state).run = .ok (.ok plan) →
      ∀ interface ∈ plan.interfaces, ∀ edit, interface.placement = .append edit →
        interface.rendered.utf8ByteSize ≤ edit.replacement.utf8ByteSize) ∧
    (∀ (index : LineIndex) (offset : Nat),
      (∀ place, LineIndex.search (min offset index.length) index.starts = .error place →
        0 < place) ∧
      ∃ start, index.starts[index.lineOf (min offset index.length)]? = some start ∧
        start ≤ min offset index.length ∧
        index.position offset = ⟨UInt32.ofNat (index.lineOf (min offset index.length)) + 1,
          UInt32.ofNat (min offset index.length - start) + 1⟩) ∧
    (∀ (names : List (List Char)), ∀ name ∈ names,
      (Naming.commonStartAll (names.map fun name => (Naming.camelWords name).reverse)).length ≤
        (Naming.camelWords name).length) := by
  have laid : module.LaidOut := fun file member =>
    SourceFile.laidOut_of_parse (Module.scanned_of_ofSources loaded file member)
  have small : module.Small := fun file member =>
    Nat.lt_trans (short _ (Module.source_of_ofSources loaded file member)) (by decide)
  obtain ⟨final, ran, -⟩ := Call.runAll_laidOut laid small fits
  refine ⟨⟨final, ran⟩, fun state edits accepted path file held => ?_,
    fun state options naming plan planned interface member edit appended => ?_,
    fun index offset => index.position_spec offset, fun names name member => ?_⟩
  · exact Module.allCut_of_accepted accepted held
  · exact ExtractionPlan.rendered_size_le (ExtractionOptions.plannedOn_of_plan planned) member
      appended
  · exact Naming.length_shared_le member

/-- A struct with a method. -/
def oneReader : List (String × String) :=
  [("a.go", "package p\n\ntype A struct\x7b\x7d\n\nfunc (a A) Read() \x7b \x7d\n")]

/-- An index, an extraction into a new file, and the plan of a rename of what was extracted. -/
def readerCalls : List Call :=
  [.index {}, .extract { minTypes := 1, createNewFiles := true } Naming.interfaceName,
    .rename { old := "Reader", new := "Source" }]

/-- The calls end, and change the module. -/
theorem calls_on_reader_end :
    ∃ module final, Module.ofSources "m" oneReader = .ok module ∧
      Call.AllFit readerCalls module ∧ Call.runAll readerCalls module = .ok final ∧
      final ≠ module := by
  have evaluated : checkOk (Module.ofSources "m" oneReader) (fun module =>
      decide (Call.AllFit readerCalls module) &&
        checkOk (Call.runAll readerCalls module) fun final =>
          module.revision != final.revision) = true := by
    decide +kernel
  obtain ⟨module, loaded, checked⟩ := exists_of_checkOk evaluated
  obtain ⟨fits, changed⟩ := Bool.and_eq_true_iff.mp checked
  have fits := of_decide_eq_true fits
  obtain ⟨⟨final, ran⟩, -⟩ := calls_never_fault "m" oneReader module readerCalls loaded
    (by decide +kernel) fits
  obtain ⟨final', ran', apart⟩ := exists_of_checkOk changed
  cases ran.symm.trans ran'
  refine ⟨module, final, loaded, fits, ran, ?_⟩
  rintro rfl
  simp at apart

end GoRefactor
