import GoRefactor.Proofs.Edit.Apply
import GoRefactor.Proofs.Go.Token.Split

/-!
# Other names in a text

Edits that put other names in place of names leave the other lexemes of a text as they are. Here is
what such edits do to the text and to the offsets between its lexemes.
-/

namespace GoRefactor

namespace Lexeme

/-- The lexeme is a name, keywords apart. -/
def isName : Lexeme → Bool
  | .word text => !isKeyword (String.ofList text)
  | _ => false

/-- The edits put names in place of names: the lexemes from an offset on, the edits by increasing
offset, and the lexemes that result. -/
inductive Relabels : Nat → List Lexeme → List Edit → List Lexeme → Prop where
  /-- At the end there is nothing left to edit. -/
  | done (offset : Nat) : Relabels offset [] [] []
  /-- A lexeme stays as it is. -/
  | keep {offset : Nat} (lexeme : Lexeme) {rest rest' : List Lexeme} {edits : List Edit}
    (others : Relabels (offset + byteLength lexeme.text) rest edits rest') :
    Relabels offset (lexeme :: rest) edits (lexeme :: rest')
  /-- A name gives way to another. -/
  | swap {offset : Nat} (edit : Edit) {text : List Char} {rest rest' : List Lexeme}
    {edits : List Edit} (covers : edit.span = ⟨offset, offset + byteLength text⟩)
    (old : isKeyword (String.ofList text) = false) (new : nameFlaw? edit.replacement = none)
    (others : Relabels (offset + byteLength text) rest edits rest') :
    Relabels offset (.word text :: rest) (edit :: edits) (.word edit.replacement.toList :: rest')

/-- No lexeme is empty. -/
def Solid (lexemes : List Lexeme) : Prop := ∀ lexeme ∈ lexemes, lexeme.text ≠ []

/-- Lexemes behind the first are no more empty than all. -/
theorem Solid.tail {lexeme : Lexeme} {rest : List Lexeme} (solid : Solid (lexeme :: rest)) :
    Solid rest := fun other member => solid other (List.mem_cons_of_mem _ member)

/-- The first of solid lexemes covers at least one byte. -/
theorem Solid.head {lexeme : Lexeme} {rest : List Lexeme} (solid : Solid (lexeme :: rest)) :
    0 < byteLength lexeme.text := by
  cases covered : lexeme.text with
  | nil => exact absurd covered (solid lexeme List.mem_cons_self)
  | cons c inner => exact byteLength_pos c inner

/-- The lexemes of a text are not empty. -/
theorem solid_of_cut {lexemes : List Lexeme} (cut : Cut lexemes) : Solid lexemes := by
  induction lexemes with
  | nil => exact fun _ member => nomatch member
  | cons lexeme rest ih =>
    intro other member
    rcases List.mem_cons.mp member with rfl | later
    · obtain ⟨c, inner, text, -⟩ := leads_iff.mp cut.1
      rw [text]
      exact List.cons_ne_nil c inner
    · exact ih cut.2 other later

/-- The first lexemes cover no more than all. -/
theorem byteLength_flat_take_le (lexemes : List Lexeme) (count : Nat) :
    byteLength (flat (lexemes.take count)) ≤ byteLength (flat lexemes) := by
  have whole := congrArg (fun all => byteLength (flat all)) (List.take_append_drop count lexemes)
  simp only [flat_append, byteLength_append] at whole
  omega

namespace Relabels

variable {offset : Nat} {lexemes lexemes' : List Lexeme} {edits : List Edit}

/-- A word that can be declared starts with what starts a name. -/
theorem starts_of_isWord {text : List Char} (isWord : IsWord text) :
    ∃ c cs, text = c :: cs ∧ startsName c = true := by
  cases text with
  | nil => exact isWord.elim
  | cons c cs => exact ⟨c, cs, rfl, isWord.1⟩

/-- Without edits all lexemes stay. -/
theorem refl (offset : Nat) : ∀ lexemes : List Lexeme, Relabels offset lexemes [] lexemes
  | [] => .done offset
  | lexeme :: rest => .keep lexeme (refl _ rest)

/-- The edits turn one text into the other. -/
theorem spliceAll_eq (relabels : Relabels offset lexemes edits lexemes') {front : String}
    (before : front.utf8ByteSize = offset) :
    Edit.spliceAll edits (front ++ String.ofList (flat lexemes)) =
      front ++ String.ofList (flat lexemes') := by
  induction relabels generalizing front with
  | done => rfl
  | @keep offset lexeme rest rest' edits others ih =>
    have size : (front ++ String.ofList lexeme.text).utf8ByteSize =
        offset + byteLength lexeme.text := by
      rw [String.utf8ByteSize_append, utf8ByteSize_ofList, before]
    have step := ih size
    rw [flat_cons, flat_cons, String.ofList_append, String.ofList_append, ← String.append_assoc,
      ← String.append_assoc]
    exact step
  | @swap offset edit text rest rest' edits covers old new others ih =>
    have size : (front ++ String.ofList text).utf8ByteSize = offset + byteLength text := by
      rw [String.utf8ByteSize_append, utf8ByteSize_ofList, before]
    have step := ih size
    rw [flat_cons, flat_cons, String.ofList_append, String.ofList_append, ← String.append_assoc,
      ← String.append_assoc, Edit.spliceAll, List.foldr_cons]
    change edit.splice (Edit.spliceAll edits (front ++ String.ofList text ++ _)) = _
    rw [step, Edit.splice_eq edit rfl (by rw [before, covers])
      (by rw [utf8ByteSize_ofList, before, covers]), Lexeme.text, String.ofList_toList]

/-- The edits begin at or behind the offset, and none of them is empty. -/
theorem edit_mem (relabels : Relabels offset lexemes edits lexemes') (solid : Solid lexemes)
    {edit : Edit} (member : edit ∈ edits) :
    offset ≤ edit.span.start ∧ edit.span.start < edit.span.stop := by
  induction relabels with
  | done => cases member
  | keep lexeme others ih =>
    have behind := ih solid.tail member
    omega
  | @swap offset first text rest rest' edits covers old new others ih =>
    have positive : 0 < byteLength text := solid.head
    rcases List.mem_cons.mp member with rfl | later
    · rw [covers]
      simp only
      omega
    · have behind := ih solid.tail later
      omega

end Relabels

/-- An edit of moderate size lengthens the text by its replacement less what it covers. -/
theorem delta_eq {edit : Edit} {offset length : Nat}
    (covers : edit.span = ⟨offset, offset + length⟩)
    (small : length < 2 ^ 63) (small' : edit.replacement.utf8ByteSize < 2 ^ 63) :
    edit.delta = edit.replacement.utf8ByteSize - length := by
  have inner : signedWord length = length := signedWord_eq (by omega) (by omega)
  unfold Edit.delta Span.length
  rw [covers]
  simp only [Nat.add_sub_cancel_left]
  rw [inner, signedWord_eq (by omega) (by omega)]

namespace Relabels

variable {offset : Nat} {lexemes lexemes' : List Lexeme} {edits : List Edit}

/-- Nothing changes before the offset. -/
theorem growthBefore_of_le (relabels : Relabels offset lexemes edits lexemes')
    (solid : Solid lexemes)
    {place : Nat} (before : place ≤ offset) :
    Edit.growthBefore place (edits.map Edit.shift) = 0 := by
  have known (edit : Edit) (member : edit ∈ edits) := relabels.edit_mem solid member
  clear relabels
  induction edits with
  | nil => rfl
  | cons edit rest ih =>
    obtain ⟨behind, nonempty⟩ := known edit List.mem_cons_self
    have precedes : edit.shift.precedes place = false := by
      unfold Edit.Shift.precedes Edit.shift Span.isEmpty
      rw [if_neg (by simp; omega)]
      simp
      omega
    rw [List.map_cons, Edit.growthBefore, precedes]
    exact ih fun edit member => known edit (List.mem_cons_of_mem _ member)

/-- Before the end of a lexeme the text grows by as much as the lexemes up to it. -/
theorem growthBefore_eq (relabels : Relabels offset lexemes edits lexemes') (solid : Solid lexemes)
    (small : byteLength (flat lexemes) < 2 ^ 63) (small' : byteLength (flat lexemes') < 2 ^ 63)
    (count : Nat) :
    Edit.growthBefore (offset + byteLength (flat (lexemes.take count))) (edits.map Edit.shift) =
      byteLength (flat (lexemes'.take count)) - byteLength (flat (lexemes.take count)) := by
  induction relabels generalizing count with
  | done => simp [Edit.growthBefore]
  | @keep offset lexeme rest rest' edits others ih =>
    rw [flat_cons, byteLength_append] at small small'
    cases count with
    | zero =>
      have none := (Relabels.keep lexeme others).growthBefore_of_le solid (Nat.le_refl offset)
      simpa using none
    | succ count =>
      have step := ih solid.tail (by omega) (by omega) count
      simp only [List.take_succ_cons, flat_cons, byteLength_append]
      rw [← Nat.add_assoc, step]
      omega
  | @swap offset edit text rest rest' edits covers old new others ih =>
    rw [flat_cons, byteLength_append, Lexeme.text] at small small'
    cases count with
    | zero =>
      have none := (Relabels.swap edit covers old new others).growthBefore_of_le solid
        (Nat.le_refl offset)
      simpa using none
    | succ count =>
      have step := ih solid.tail (by omega) (by omega) count
      have nonempty := ((Relabels.swap edit covers old new others).edit_mem solid
        List.mem_cons_self).2
      have size := byteLength_toList edit.replacement
      have delta := delta_eq covers (by omega) (by omega)
      have precedes : edit.shift.precedes
          (offset + (byteLength text + byteLength (flat (rest.take count)))) = true := by
        unfold Edit.Shift.precedes Edit.shift Span.isEmpty
        rw [if_neg (by simp; omega), covers]
        simp
      simp only [List.take_succ_cons, flat_cons, byteLength_append, List.map_cons, Lexeme.text]
      rw [Edit.growthBefore, if_pos precedes, ← Nat.add_assoc, step, Edit.shift, delta,
        byteLength_toList]
      simp only
      omega

/-- An offset between two lexemes goes to the offset between their images. -/
theorem moveOffset_eq (relabels : Relabels 0 lexemes edits lexemes') (solid : Solid lexemes)
    (small : byteLength (flat lexemes) < 2 ^ 63) (small' : byteLength (flat lexemes') < 2 ^ 63)
    (count : Nat) :
    Edit.moveOffset (edits.map Edit.shift) (byteLength (flat (lexemes.take count))) =
      byteLength (flat (lexemes'.take count)) := by
  have growth := relabels.growthBefore_eq solid small small' count
  rw [Nat.zero_add] at growth
  have within := byteLength_flat_take_le lexemes count
  have within' := byteLength_flat_take_le lexemes' count
  have inner : signedWord (byteLength (flat (lexemes.take count))) =
      byteLength (flat (lexemes.take count)) := signedWord_eq (by omega) (by omega)
  unfold Edit.moveOffset shiftOffset
  rw [growth, inner, signedWord_eq (by omega) (by omega)]
  omega

end Relabels

end Lexeme

end GoRefactor
