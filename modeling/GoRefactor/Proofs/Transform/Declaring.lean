import GoRefactor.Proofs.Edit.Append
import GoRefactor.Proofs.Text.Position
import GoRefactor.Proofs.Transform.Flags

/-!
# Interfaces declared one after the other

Each planned interface changes one file, and what the file becomes follows from what it was: a
declaration is put behind its end, or the file is scanned where there was none. So the files after
an extraction are found one by one, from the interfaces that go there, in their order.
-/

namespace GoRefactor

/-- The file with an interface declared at its end. The text grows, and the types that the
declaration declares on its own are registered, moved to where it lands. -/
def SourceFile.extend (file : SourceFile) (rendered : String) : Except Error SourceFile := do
  let edit := appendEdit file.path file.content rendered
  let types ← snippetTypes file.path file.packageName rendered
    (edit.span.start + (edit.replacement.utf8ByteSize - rendered.utf8ByteSize))
  return (file.grown edit.replacement types).flagged

namespace SourceFile

variable {file : SourceFile}

/-- The flag does not unsettle a file. -/
theorem Settled.flagged (settled : file.Settled) : file.flagged.Settled := by
  obtain ⟨⟨lexemes, laid⟩, types, functions, vars, consts⟩ := settled
  exact ⟨⟨lexemes, laid.of_unflagged rfl⟩, types, functions, vars, consts⟩

/-- A settled file becomes what the declaration makes of it. -/
theorem Settled.extend (settled : file.Settled) {rendered : String}
    {types : List (String × TypeDecl)} {moved : SourceFile}
    (made : snippetTypes file.path file.packageName rendered
      ((appendEdit file.path file.content rendered).span.start +
        ((appendEdit file.path file.content rendered).replacement.utf8ByteSize -
          rendered.utf8ByteSize)) = .ok types)
    (edits : Edit.applyToFile [appendEdit file.path file.content rendered] file = .ok moved)
    (short : moved.content.utf8ByteSize < 2 ^ 63) :
    file.extend rendered = .ok (moved.register types).flagged ∧
      (moved.register types).flagged.Settled := by
  have whole : moved.content =
      file.content ++ (appendEdit file.path file.content rendered).replacement := by
    rw [(Edit.applyToFile_keeps edits).2.1, spliceAll_insert_end rfl]
  rw [whole, String.utf8ByteSize_append] at short
  obtain ⟨applied, again⟩ := settled.append made short
  cases edits.symm.trans applied
  refine ⟨?_, again.flagged⟩
  unfold SourceFile.extend
  simp only
  rw [made]
  rfl

end SourceFile

/-- The file that the interface goes to, after it is declared there. -/
def PlannedInterface.declaredIn (planned : PlannedInterface) :
    Option SourceFile → Except Error SourceFile
  | some file => file.extend planned.rendered
  | none => SourceFile.flagged <$> scanFile planned.change.file planned.change.after

namespace ExtractionPlan

/-- The interfaces that go to a file, in order. -/
def goingTo (interfaces : List PlannedInterface) (path : String) : List PlannedInterface :=
  interfaces.filter fun planned => planned.change.file == path

/-- What interfaces add to the text of a file. -/
def addition (interfaces : List PlannedInterface) (path : String) : String :=
  String.join ((goingTo interfaces path).map (·.change.after))

/-- What a file becomes, or is made, by the interfaces that go to it. -/
def filed (interfaces : List PlannedInterface) (path : String) (file : Option SourceFile) :
    Except Error (Option SourceFile) :=
  (goingTo interfaces path).foldlM (fun file planned => some <$> planned.declaredIn file) file

section goingTo

variable {planned : PlannedInterface} {rest : List PlannedInterface} {path : String}

/-- An interface that goes to the file comes before those behind it. -/
theorem goingTo_cons_of_eq (here : planned.change.file = path) :
    goingTo (planned :: rest) path = planned :: goingTo rest path :=
  List.filter_cons_of_pos (beq_iff_eq.mpr here)

/-- An interface that goes elsewhere does not count. -/
theorem goingTo_cons_of_ne (elsewhere : planned.change.file ≠ path) :
    goingTo (planned :: rest) path = goingTo rest path :=
  List.filter_cons_of_neg fun same => elsewhere (eq_of_beq same)

end goingTo

/-- Each file's text after all interfaces: what they add stands behind what was there. -/
theorem textsAfter_eq (texts : String → Option String) (interfaces : List PlannedInterface)
    (path : String) :
    textsAfter texts interfaces path =
      if goingTo interfaces path = [] then texts path
      else some ((texts path).getD "" ++ addition interfaces path) := by
  induction interfaces generalizing texts with
  | nil => rfl
  | cons planned rest ih =>
    have step : textsAfter texts (planned :: rest) path =
      textsAfter (planned.textsAfter texts) rest path := rfl
    rw [step, ih]
    unfold PlannedInterface.textsAfter addition
    by_cases here : planned.change.file = path
    · subst here
      rw [goingTo_cons_of_eq rfl, if_neg (List.cons_ne_nil _ _), Function.update_self,
        PlannedInterface.written, List.map_cons, String.join_cons, ← String.append_assoc]
      split
      · rename_i last
        rw [last]
        simp
      · rfl
    · rw [goingTo_cons_of_ne here, Function.update_of_ne (Ne.symm here)]

/-- A text that is there stays at the front. -/
theorem textsAfter_of_some {texts : String → Option String} {path text : String}
    (known : texts path = some text) (interfaces : List PlannedInterface) :
    ∃ more, textsAfter texts interfaces path = some (text ++ more) := by
  rw [textsAfter_eq, known]
  split
  · exact ⟨"", by rw [String.append_empty]⟩
  · exact ⟨_, rfl⟩

end ExtractionPlan

namespace Module

variable {module next : Module}

/-- What is appended to a file is all that changes: the file is edited, gets the types that the
declaration declares on its own, and is flagged. -/
theorem file?_appendInterface {edit : Edit} {rendered : String}
    (declared : (module.appendInterface edit rendered).run = .ok (.ok next)) :
    ∃ file types moved, module.file? edit.file = some file ∧
      snippetTypes edit.file file.packageName rendered
        (edit.span.start + (edit.replacement.utf8ByteSize - rendered.utf8ByteSize)) = .ok types ∧
      Edit.applyToFile [edit] file = .ok moved ∧
      next.file? =
        Function.update module.file? edit.file (some (moved.register types).flagged) := by
  obtain ⟨file, types, edited, paths, held, made, applied, rfl⟩ :=
    appendInterface_eq_ok.mp declared
  obtain ⟨other, moved, found, -, edits, rfl⟩ := applyEdits_single applied
  cases held.symm.trans found
  refine ⟨file, types, moved, held, made, edits, funext fun path => ?_⟩
  have there : moved.path = edit.file :=
    (Edit.applyToFile_keeps edits).1.trans (mem_of_file? held).2
  let placed := (module.updateFile edit.file fun _ => moved).markModified edit.file
  have registers (file : SourceFile) (here : file.path = edit.file) :
      (file.register types).path = edit.file := here
  calc (placed.touch.updateFile edit.file (SourceFile.register types)).file? path
      = (placed.file? path).map fun file =>
          if file.path = edit.file then file.register types else file :=
        file?_updateFile placed.touch registers path
    _ = _ := ?_
  rw [file?_markModified, file?_updateFile _ (fun _ _ => there), Function.update_apply]
  split
  · rename_i here
    rw [here, held]
    simp [(mem_of_file? held).2, there, SourceFile.flagged, SourceFile.register]
  · rename_i elsewhere
    cases same : module.file? path with
    | none => rfl
    | some other =>
      have apart : other.path ≠ edit.file := (mem_of_file? same).2 ▸ elsewhere
      simp [apart]

/-- A file that is added under a free path is all that changes. -/
theorem file?_createFile (distinct : module.DistinctPaths) {package path content : String}
    (free : module.file? path = none)
    (created : (module.createFile package path content).run = .ok (.ok next)) :
    ∃ file, scanFile path content = .ok file ∧
      next.file? = Function.update module.file? path (some file.flagged) := by
  have fresh : path ∉ module.sourceFiles.map SourceFile.path := by
    intro listed
    obtain ⟨file, held, rfl⟩ := List.mem_map.mp listed
    rw [file?_path distinct held] at free
    cases free
  have distinct' : next.DistinctPaths :=
    ((Descends.refl distinct).createFile fresh created).1.distinct
  obtain ⟨file, owner, scanned, held, rfl⟩ := createFile_eq_ok.mp created
  have there : file.path = path := (SourceFile.path_of_parse (parse_of_scanFile scanned)).1
  have listed {other : SourceFile} : other ∈ (module.addFile package file).sourceFiles ↔
      other = file.flagged ∨ other ∈ module.sourceFiles :=
    (perm_sourceFiles_grown held file).mem_iff.trans List.mem_cons
  refine ⟨file, scanned, funext fun wanted => ?_⟩
  rw [Function.update_apply]
  split
  · rename_i here
    rw [here, ← there]
    exact file?_path distinct' (listed.mpr (Or.inl rfl))
  · rename_i elsewhere
    cases found : module.file? wanted with
    | some other =>
      obtain ⟨member, rfl⟩ := mem_of_file? found
      exact file?_path distinct' (listed.mpr (Or.inr member))
    | none =>
      rw [file?_eq_find?, List.find?_eq_none] at found ⊢
      intro other member
      rcases listed.mp member with rfl | former
      · intro same
        exact elsewhere ((eq_of_beq same).symm.trans there)
      · exact found other former

/-- The text of a file is that of the file with its path. -/
theorem text?_update {files : String → Option SourceFile} {path : String} {image : SourceFile}
    (all : next.file? = Function.update files path (some image)) :
    next.text? = Function.update (fun path => (files path).map (·.content)) path
      (some image.content) := by
  funext wanted
  rw [text?, all, Function.update_apply, Function.update_apply]
  split
  · rfl
  · rfl

/-- **A planned interface changes one file**, which gets the text that was planned. A settled file
becomes what the declaration makes of it, and is settled again. -/
theorem file?_declareInterface (distinct : module.DistinctPaths) {planned : PlannedInterface}
    (placed : ∃ package path name rendered,
      planned = ExtractionOptions.placed package path name rendered (module.text? path))
    (declared : (module.declareInterface planned).run = .ok (.ok next)) :
    ∃ image, next.file? = Function.update module.file? planned.change.file (some image) ∧
      image.content = planned.written module.text? ∧
      ((∀ file ∈ module.file? planned.change.file, file.Settled) →
        image.content.utf8ByteSize < 2 ^ 63 →
        planned.declaredIn (module.file? planned.change.file) = .ok image ∧ image.Settled) := by
  obtain ⟨package, path, name, rendered, rfl⟩ := placed
  rw [ExtractionOptions.file_placed, PlannedInterface.written, ExtractionOptions.file_placed]
  cases held : module.file? path with
  | some file =>
    have text : module.text? path = some file.content := congrArg (Option.map _) held
    rw [text] at declared ⊢
    obtain ⟨other, types, moved, held', made, edits, all⟩ := file?_appendInterface declared
    cases held.symm.trans held'
    have here : file.path = path := (mem_of_file? held).2
    subst here
    refine ⟨_, all, ?_, fun settled short => (settled file rfl).extend made edits short⟩
    change moved.content = file.content ++ _
    rw [(Edit.applyToFile_keeps edits).2.1, SourceFile.spliceAll_insert_end rfl]
    rfl
  | none =>
    have text : module.text? path = none := congrArg (Option.map _) held
    rw [text] at declared ⊢
    obtain ⟨file, scanned, all⟩ := file?_createFile distinct held declared
    have parsed := parse_of_scanFile scanned
    refine ⟨file.flagged, all, ?_, fun _ _ => ⟨?_, ?_⟩⟩
    · exact (SourceFile.path_of_parse parsed).2.trans String.empty_append.symm
    · exact congrArg (Functor.map SourceFile.flagged) scanned
    · exact (SourceFile.settled_of_parse parsed).flagged

/-- What interfaces that are planned one on the other make of the files of a module. -/
structure Carries (module final : Module) (interfaces : List PlannedInterface) : Prop where
  /-- Paths tell the files apart. -/
  distinct : final.DistinctPaths
  /-- The texts are those that were planned. -/
  texts : final.text? = ExtractionPlan.textsAfter module.text? interfaces
  /-- Files that no interface goes to stay as they are. -/
  untouched : ∀ path, ExtractionPlan.goingTo interfaces path = [] →
    final.file? path = module.file? path
  /-- Settled files, and files that were not there, become what the interfaces make of them, one
  after the other. -/
  filed : ∀ path, (∀ file ∈ module.file? path, file.Settled) →
    (∀ text ∈ final.text? path, text.utf8ByteSize < 2 ^ 63) →
    ExtractionPlan.filed interfaces path (module.file? path) = .ok (final.file? path) ∧
      ∀ file ∈ final.file? path, file.Settled

/-- An interface that is declared before others that are carried out. -/
theorem Carries.cons {final : Module} {planned : PlannedInterface} {rest : List PlannedInterface}
    (carries : next.Carries final rest) {image : SourceFile}
    (all : next.file? = Function.update module.file? planned.change.file (some image))
    (written : image.content = planned.written module.text?)
    (becomes : (∀ file ∈ module.file? planned.change.file, file.Settled) →
      image.content.utf8ByteSize < 2 ^ 63 →
      planned.declaredIn (module.file? planned.change.file) = .ok image ∧ image.Settled) :
    module.Carries final (planned :: rest) := by
  have texts : next.text? = planned.textsAfter module.text? := by
    rw [text?_update all, written]
    rfl
  refine ⟨carries.distinct, ?_, fun path none => ?_, fun path settled short => ?_⟩
  · rw [carries.texts, texts]
    rfl
  · by_cases here : planned.change.file = path
    · rw [ExtractionPlan.goingTo_cons_of_eq here] at none
      cases none
    · rw [ExtractionPlan.goingTo_cons_of_ne here] at none
      rw [carries.untouched path none, all, Function.update_of_ne (Ne.symm here)]
  · unfold ExtractionPlan.filed
    by_cases here : planned.change.file = path
    · subst here
      have known : next.text? planned.change.file = some image.content := by
        rw [texts, PlannedInterface.textsAfter, Function.update_self, written]
      have fits : image.content.utf8ByteSize < 2 ^ 63 := by
        obtain ⟨more, whole⟩ := ExtractionPlan.textsAfter_of_some known rest
        have bound := short _ (by rw [carries.texts]; exact whole)
        rw [String.utf8ByteSize_append] at bound
        omega
      obtain ⟨declared, again⟩ := becomes settled fits
      have now : next.file? planned.change.file = some image := by rw [all, Function.update_self]
      have later := carries.filed planned.change.file (by rw [now]; rintro _ ⟨⟩; exact again) short
      rw [now] at later
      rw [ExtractionPlan.goingTo_cons_of_eq rfl, List.foldlM_cons, declared]
      exact later
    · have same : next.file? path = module.file? path := by
        rw [all, Function.update_of_ne (Ne.symm here)]
      rw [ExtractionPlan.goingTo_cons_of_ne here, ← same]
      exact carries.filed path (same ▸ settled) short

/-- **Interfaces that are planned one on the other are carried out as planned.** -/
theorem carries_of_declareInterfaces {final : Module} {interfaces : List PlannedInterface}
    (distinct : module.DistinctPaths) (planned : ExtractionPlan.PlannedOn module.text? interfaces)
    (declared : module.declareInterfaces interfaces = .ok (final, none)) :
    module.Carries final interfaces := by
  induction interfaces generalizing module with
  | nil =>
    cases declared
    exact ⟨distinct, rfl, fun _ _ => rfl, fun path settled _ => ⟨rfl, settled⟩⟩
  | cons first rest ih =>
    rcases declareInterfaces_cons.mp declared with ⟨between, step, declared⟩ | ⟨_, -, -, none⟩
    · obtain ⟨placed, later⟩ := planned
      obtain ⟨image, all, written, becomes⟩ := file?_declareInterface distinct placed step
      have texts : between.text? = first.textsAfter module.text? := by
        rw [text?_update all, written]
        rfl
      have apart : between.DistinctPaths :=
        ((Descends.refl distinct).declareInterface (Descends.covers_text? distinct) placed
          step).1.distinct
      exact (ih apart (texts ▸ later) declared).cons all written becomes
    · cases none

end Module

end GoRefactor
