import GoRefactor.Error
import Mathlib.Data.List.Forall2

/-!
# Runs of attempts

An attempt ends in a value, in a refusal or in a fault. The laws here take a sequence of two
attempts apart: what it gives is what its parts give.
-/

namespace GoRefactor

/-- A sequence of two computations gives a value exactly when both do. -/
theorem bind_eq_ok {ε α β : Type} {first : Except ε α} {second : α → Except ε β} {result : β} :
    first >>= second = .ok result ↔ ∃ value, first = .ok value ∧ second value = .ok result := by
  cases first with
  | error stopped =>
    constructor
    · intro given
      cases given
    · rintro ⟨value, given, -⟩
      cases given
  | ok value =>
    constructor
    · intro given
      exact ⟨value, rfl, given⟩
    · rintro ⟨found, same, given⟩
      cases same
      exact given

/-- The equation of a computation that goes on. -/
theorem bind_ok {ε α β : Type} (value : α) (following : α → Except ε β) :
    ((.ok value : Except ε α) >>= following) = following value := rfl

/-- A changed result is there exactly when the result is. -/
theorem map_eq_ok {ε α β : Type} {change : α → β} {first : Except ε α} {result : β} :
    change <$> first = .ok result ↔ ∃ value, first = .ok value ∧ change value = result := by
  cases first with
  | error stopped =>
    constructor
    · intro given
      cases given
    · rintro ⟨value, given, -⟩
      cases given
  | ok value =>
    constructor
    · intro given
      cases given
      exact ⟨value, rfl, rfl⟩
    · rintro ⟨found, same, rfl⟩
      cases same
      rfl

/-- Run a check on a result. -/
def checkOk {ε α : Type} (result : Except ε α) (check : α → Bool) : Bool :=
  match result with
  | .ok value => check value
  | .error _ => false

/-- A check that passes has seen a result. -/
theorem exists_of_checkOk {ε α : Type} {result : Except ε α} {check : α → Bool}
    (passes : checkOk result check = true) :
    ∃ value, result = .ok value ∧ check value = true := by
  cases result with
  | error stopped => cases passes
  | ok value => exact ⟨value, rfl, passes⟩

/-- What the steps of a fold keep for the members of a list, the fold over the list keeps. -/
theorem foldlM_keeps_of_mem {ε σ α : Type} {step : σ → α → Except ε σ} (kept : σ → Prop) :
    ∀ (items : List α) (state final : σ),
      (∀ state, ∀ item ∈ items, ∀ next, kept state → step state item = .ok next → kept next) →
      kept state → items.foldlM step state = .ok final → kept final
  | [], state, final, _, holds, folded => by
    cases folded
    exact holds
  | item :: rest, state, final, keeps, holds, folded => by
    rw [List.foldlM_cons] at folded
    obtain ⟨next, stepped, folded⟩ := bind_eq_ok.mp folded
    exact foldlM_keeps_of_mem kept rest next final
      (fun state item member => keeps state item (List.mem_cons_of_mem _ member))
      (keeps state item List.mem_cons_self next holds stepped) folded

/-- What every step of a fold keeps, the whole fold keeps. -/
theorem foldlM_keeps {ε σ α : Type} {step : σ → α → Except ε σ} (kept : σ → Prop)
    (keeps : ∀ state item next, kept state → step state item = .ok next → kept next)
    (items : List α) (state final : σ) (holds : kept state)
    (folded : items.foldlM step state = .ok final) : kept final :=
  foldlM_keeps_of_mem kept items state final (fun state item _ => keeps state item) holds folded

/-- A computation over a list gives values exactly when it does for each member. -/
theorem mapM_eq_ok_iff {ε α β : Type} {visit : α → Except ε β} {values : List α}
    {images : List β} :
    values.mapM visit = .ok images ↔
      List.Forall₂ (fun value image => visit value = .ok image) values images := by
  induction values generalizing images with
  | nil =>
    rw [List.mapM_nil, List.forall₂_nil_left_iff]
    constructor
    · intro given
      cases given
      rfl
    · intro given
      rw [given]
      rfl
  | cons value rest ih =>
    rw [List.mapM_cons, List.forall₂_cons_left_iff, bind_eq_ok]
    constructor
    · rintro ⟨image, visited, others⟩
      obtain ⟨following, visited', given⟩ := bind_eq_ok.mp others
      cases given
      exact ⟨image, following, visited, ih.mp visited', rfl⟩
    · rintro ⟨image, following, visited, related, rfl⟩
      exact ⟨image, visited, bind_eq_ok.mpr ⟨following, ih.mpr related, rfl⟩⟩

/-- Lists whose members agree in a view agree in it. -/
theorem map_eq_map_of_forall₂ {α β γ : Type} {related : α → β → Prop} {values : List α}
    {images : List β} (view : α → γ) (seen : β → γ)
    (agrees : ∀ value image, related value image → seen image = view value)
    (matched : List.Forall₂ related values images) : images.map seen = values.map view := by
  rw [← List.forall₂_eq_eq_eq, List.forall₂_map_left_iff, List.forall₂_map_right_iff]
  exact matched.flip.imp fun image value given => agrees value image given

/-- Values that each have an image have them in a row. -/
theorem mapM_eq_some_map {α β : Type} {visit : α → Option β} {image : α → β} {values : List α}
    (each : ∀ value ∈ values, visit value = some (image value)) :
    values.mapM visit = some (values.map image) := by
  induction values with
  | nil => rfl
  | cons head rest ih =>
    obtain ⟨first, later⟩ := List.forall_mem_cons.mp each
    rw [List.mapM_cons, first, ih later]
    rfl

/-- Lists that agree in a view match member by member. -/
theorem forall₂_of_map_eq {α β γ : Type} {values : List α} {images : List β} {view : α → γ}
    {seen : β → γ} (same : images.map seen = values.map view) :
    List.Forall₂ (fun value image => value ∈ values ∧ image ∈ images ∧ seen image = view value)
      values images := by
  rw [← List.forall₂_eq_eq_eq, List.forall₂_map_left_iff, List.forall₂_map_right_iff] at same
  have both := (List.forall₂_and_left _ _).mpr ⟨fun image member => member, same⟩
  exact (List.forall₂_and_left _ _).mpr ⟨fun value member => member, both.flip⟩

/-- Values that each have an image have images in a row. -/
theorem exists_forall₂ {α β : Type} {related : α → β → Prop} {values : List α}
    (each : ∀ value ∈ values, ∃ image, related value image) :
    ∃ images, List.Forall₂ related values images := by
  induction values with
  | nil => exact ⟨[], .nil⟩
  | cons head rest ih =>
    obtain ⟨⟨image, one⟩, others⟩ := List.forall_mem_cons.mp each
    obtain ⟨images, matched⟩ := ih others
    exact ⟨image :: images, .cons one matched⟩

/-- Every member of a matched list has a partner. -/
theorem exists_mem_of_forall₂ {α β : Type} {related : α → β → Prop} {values : List α}
    {images : List β} (matched : List.Forall₂ related values images) {image : β}
    (inside : image ∈ images) : ∃ value ∈ values, related value image := by
  induction matched with
  | nil => cases inside
  | @cons value first _ _ one _ ih =>
    rcases List.mem_cons.mp inside with rfl | later
    · exact ⟨value, List.mem_cons_self, one⟩
    · obtain ⟨found, member, given⟩ := ih later
      exact ⟨found, List.mem_cons_of_mem _ member, given⟩

/-- An order of members holds of their partners where it carries over. -/
theorem pairwise_of_forall₂ {α β : Type} {related : α → β → Prop} {before : α → α → Prop}
    {before' : β → β → Prop} {values : List α} {images : List β}
    (matched : List.Forall₂ related values images) (ordered : values.Pairwise before)
    (carries : ∀ value image other image', related value image → related other image' →
      before value other → before' image image') : images.Pairwise before' := by
  induction matched with
  | nil => exact .nil
  | cons head rest ih =>
    obtain ⟨first, later⟩ := List.pairwise_cons.mp ordered
    refine List.pairwise_cons.mpr ⟨fun image member => ?_, ih later⟩
    obtain ⟨value, inside, given⟩ := exists_mem_of_forall₂ rest member
    exact carries _ _ _ _ head given (first value inside)

namespace Attempt

variable {α β : Type}

/-- A returned value is the result. -/
@[simp]
theorem run_pure (value : α) : (pure value : Attempt α).run = .ok (.ok value) := rfl

/-- A refusal is the result. -/
@[simp]
theorem run_refuse (error : Error) : (refuse error : Attempt α).run = .ok (.error error) := rfl

/-- A checked value is the result. -/
@[simp]
theorem run_mk_ok (result : Except Error α) :
    (ExceptT.mk (.ok result) : Attempt α).run = .ok result := rfl

/-- What only may fault is not refused. -/
theorem run_lift_ne_error (computed : Except Fault α) (error : Error) :
    (ExceptT.lift computed : Attempt α).run ≠ .ok (.error error) := by
  intro refused
  obtain ⟨value, -, given⟩ := map_eq_ok.mp refused
  cases given

/-- A sequence that starts with a refusal is refused with the same error. -/
theorem run_bind_error {first : Attempt α} {error : Error} (second : α → Attempt β)
    (refused : first.run = .ok (.error error)) :
    (first >>= second).run = .ok (.error error) := by
  have same : first = refuse error := refused
  subst same
  rfl

/-- A sequence that starts with a value goes on with it. -/
theorem run_bind_ok {first : Attempt α} {value : α} (second : α → Attempt β)
    (given : first.run = .ok (.ok value)) : (first >>= second).run = (second value).run := by
  have same : first = pure value := given
  subst same
  rfl

/-- A sequence that starts with a fault stops with it. -/
theorem run_bind_fault {first : Attempt α} {fault : Fault} (second : α → Attempt β)
    (stopped : first.run = .error fault) : (first >>= second).run = .error fault := by
  have same : first = stop fault := stopped
  subst same
  rfl

/-- A sequence gives a value exactly when both parts do. -/
theorem run_bind_eq_ok {first : Attempt α} {second : α → Attempt β} {result : β} :
    (first >>= second).run = .ok (.ok result) ↔
      ∃ value, first.run = .ok (.ok value) ∧ (second value).run = .ok (.ok result) := by
  constructor
  · intro given
    rcases start : first.run with fault | error | value
    · rw [run_bind_fault second start] at given
      cases given
    · rw [run_bind_error second start] at given
      cases given
    · rw [run_bind_ok second start] at given
      exact ⟨value, rfl, given⟩
  · rintro ⟨value, start, given⟩
    rw [run_bind_ok second start]
    exact given

/-- A sequence is refused exactly when one of its parts is. -/
theorem run_bind_eq_error {first : Attempt α} {second : α → Attempt β} {error : Error} :
    (first >>= second).run = .ok (.error error) ↔
      first.run = .ok (.error error) ∨
        ∃ value, first.run = .ok (.ok value) ∧ (second value).run = .ok (.error error) := by
  constructor
  · intro refused
    rcases start : first.run with fault | found | value
    · rw [run_bind_fault second start] at refused
      cases refused
    · rw [run_bind_error second start] at refused
      have same : found = error := by simpa using refused
      exact Or.inl (same ▸ rfl)
    · rw [run_bind_ok second start] at refused
      exact Or.inr ⟨value, rfl, refused⟩
  · rintro (refused | ⟨value, start, refused⟩)
    · exact run_bind_error second refused
    · rw [run_bind_ok second start]
      exact refused

/-- An attempt over a list gives values exactly when it does for each member. -/
theorem run_mapM_eq_ok {visit : α → Attempt β} {values : List α} {images : List β} :
    (values.mapM visit).run = .ok (.ok images) ↔
      List.Forall₂ (fun value image => (visit value).run = .ok (.ok image)) values images := by
  induction values generalizing images with
  | nil =>
    rw [List.mapM_nil, List.forall₂_nil_left_iff, run_pure]
    constructor
    · intro given
      cases given
      rfl
    · rintro rfl
      rfl
  | cons value rest ih =>
    rw [List.mapM_cons, List.forall₂_cons_left_iff, run_bind_eq_ok]
    constructor
    · rintro ⟨image, visited, others⟩
      obtain ⟨following, visited', given⟩ := run_bind_eq_ok.mp others
      cases given
      exact ⟨image, following, visited, ih.mp visited', rfl⟩
    · rintro ⟨image, following, visited, related, rfl⟩
      exact ⟨image, visited, run_bind_eq_ok.mpr ⟨following, ih.mpr related, rfl⟩⟩

/-! ## Attempts without faults -/

/-- The attempt ends, with a value or with a refusal. -/
def Ends (attempt : Attempt α) : Prop := ∃ result, attempt.run = .ok result

/-- A returned value is an end. -/
theorem ends_pure (value : α) : Ends (pure value : Attempt α) := ⟨_, run_pure value⟩

/-- A refusal is an end. -/
theorem ends_refuse (error : Error) : Ends (refuse error : Attempt α) := ⟨_, run_refuse error⟩

/-- A checked value is an end. -/
theorem ends_mk_ok (result : Except Error α) : Ends (ExceptT.mk (.ok result) : Attempt α) :=
  ⟨_, run_mk_ok result⟩

/-- A choice ends if both sides do. -/
theorem ends_ite {test : Prop} [Decidable test] {first second : Attempt α} (ends : Ends first)
    (ends' : Ends second) : Ends (if test then first else second) := by
  split
  · exact ends
  · exact ends'

/-- A sequence ends if its parts do. -/
theorem ends_bind {first : Attempt α} {second : α → Attempt β} (ends : Ends first)
    (following : ∀ value, first.run = .ok (.ok value) → Ends (second value)) :
    Ends (first >>= second) := by
  obtain ⟨error | value, given⟩ := ends
  · exact ⟨_, run_bind_error second given⟩
  · obtain ⟨result, given'⟩ := following value given
    exact ⟨result, (run_bind_ok second given).trans given'⟩

/-- An attempt over a list ends if it does for each member. -/
theorem ends_mapM {visit : α → Attempt β} {values : List α}
    (each : ∀ value ∈ values, Ends (visit value)) : Ends (values.mapM visit) := by
  induction values with
  | nil => exact ends_pure []
  | cons value rest ih =>
    rw [List.mapM_cons]
    refine ends_bind (each value List.mem_cons_self) fun image _ => ?_
    refine ends_bind (ih fun other member => each other (List.mem_cons_of_mem _ member))
      fun _ _ => ?_
    exact ends_pure _

/-- An attempt for a value that may be missing ends if it does for the value. -/
theorem ends_optionMapM {visit : α → Attempt β} {value : Option α}
    (each : ∀ given ∈ value, Ends (visit given)) : Ends (value.mapM visit) := by
  cases value with
  | none => exact ends_pure none
  | some given =>
    obtain ⟨error | image, done⟩ := each given rfl
    · exact ⟨.error error, run_bind_error _ done⟩
    · exact ⟨.ok (some image), run_bind_ok _ done⟩

end Attempt

end GoRefactor
