import GoRefactor.Proofs.Text.LineIndex
import Mathlib.Data.List.Induction

/-!
# Where positions are

A position names the place behind so many line breaks and so many bytes of the line. The position
that a line index gives for an offset is the one of that place.
-/

namespace GoRefactor

/-- The position in the text is at the offset: full lines stand in front of it, one less than its
line, and then a part of a line, one byte shorter than its column. Both numbers are cut to their
32 bits. -/
def Position.IsAt (position : Position) (content : List Char) (offset : Nat) : Prop :=
  ∃ lines part rest, content = lines ++ part ++ rest ∧ byteLength (lines ++ part) = offset ∧
    (lines = [] ∨ lines.getLast? = some '\n') ∧ '\n' ∉ part ∧
    position = ⟨UInt32.ofNat (lines.count '\n' + 1), UInt32.ofNat (byteLength part + 1)⟩

namespace LineIndex

/-- Every text is full lines and a part of a line. -/
theorem exists_lines (content : List Char) : ∃ lines part,
    content = lines ++ part ∧ (lines = [] ∨ lines.getLast? = some '\n') ∧ '\n' ∉ part := by
  induction content using List.reverseRecOn with
  | nil => exact ⟨[], [], rfl, Or.inl rfl, List.not_mem_nil⟩
  | append_singleton front c ih =>
    by_cases breaks : c = '\n'
    · exact ⟨front ++ [c], [], (List.append_nil _).symm, Or.inr (breaks ▸ List.getLast?_concat),
        List.not_mem_nil⟩
    · obtain ⟨lines, part, rfl, full, unbroken⟩ := ih
      exact ⟨lines, part ++ [c], List.append_assoc _ _ _, full,
        by simp [unbroken, Ne.symm breaks]⟩

/-- The encoding of characters is as long as they are in bytes. -/
theorem length_encoded (content : List Char) :
    (content.flatMap String.utf8EncodeChar).length = byteLength content := by
  induction content with
  | nil => rfl
  | cons c cs ih =>
    rw [List.flatMap_cons, List.length_append, String.length_utf8EncodeChar, ih, byteLength_cons]

/-- The encoding of characters has their line breaks. -/
theorem count_encoded (content : List Char) :
    (content.flatMap String.utf8EncodeChar).count newline = content.count '\n' := by
  induction content with
  | nil => rfl
  | cons c cs ih =>
    rw [List.flatMap_cons, List.count_append, ih]
    by_cases breaks : c = '\n'
    · rw [breaks, utf8EncodeChar_newline, List.count_singleton_self, List.count_cons_self,
        Nat.add_comm]
    · rw [List.count_eq_zero.mpr (newline_not_mem_utf8EncodeChar breaks),
        List.count_cons_of_ne breaks, Nat.zero_add]

/-- The bytes in front of a place between characters are those of the characters in front. -/
theorem take_bytesOf (front back : List Char) :
    (bytesOf (String.ofList (front ++ back))).take (byteLength front) =
      front.flatMap String.utf8EncodeChar := by
  rw [bytesOf_eq_flatMap, String.toList_ofList, List.flatMap_append, ← length_encoded front,
    List.take_left]

/-- Where full lines and a part of one stand in front, the line starts behind the full lines. -/
theorem startsLine_of_lines {lines part : List Char} (rest : List Char)
    (full : lines = [] ∨ lines.getLast? = some '\n') (unbroken : '\n' ∉ part) :
    StartsLine (bytesOf (String.ofList (lines ++ part ++ rest))) (byteLength lines)
      (byteLength (lines ++ part)) := by
  refine ⟨?_, ?_, ?_⟩
  · rw [byteLength_append]
    exact Nat.le_add_right _ _
  · rcases List.eq_nil_or_concat lines with rfl | ⟨before, last, rfl⟩
    · exact Or.inl rfl
    · obtain rfl : last = '\n' := by simpa using full
      refine Or.inr ?_
      rw [List.concat_eq_append, byteLength_append, bytesOf_eq_flatMap, String.toList_ofList]
      simp [utf8EncodeChar_newline, byteLength, ← length_encoded before,
        show Char.utf8Size '\n' = 1 from rfl]
  · rw [take_bytesOf, List.flatMap_append, ← length_encoded lines, List.drop_left]
    rw [← List.count_eq_zero, count_encoded]
    exact List.count_eq_zero.mpr unbroken

/-- The position behind full lines and a part of one counts the lines and the bytes of the part. -/
theorem position_of_lines {lines part : List Char} (rest : List Char)
    (full : lines = [] ∨ lines.getLast? = some '\n') (unbroken : '\n' ∉ part) :
    (ofChars (lines ++ part ++ rest)).position (byteLength (lines ++ part)) =
      ⟨UInt32.ofNat (lines.count '\n' + 1), UInt32.ofNat (byteLength part + 1)⟩ := by
  have within : byteLength (lines ++ part) ≤
      (String.ofList (lines ++ part ++ rest)).utf8ByteSize := by
    rw [utf8ByteSize_ofList, byteLength_append (lines ++ part)]
    exact Nat.le_add_right _ _
  have found := position_eq (startsLine_of_lines rest full unbroken) within
  rw [ofText, String.toList_ofList, take_bytesOf, count_encoded, List.count_append,
    List.count_eq_zero.mpr unbroken, byteLength_append, Nat.add_sub_cancel_left] at found
  rw [byteLength_append, found, Nat.add_zero, Nat.add_comm 1, Nat.add_comm 1]

/-- **The position that a line index gives is where the offset is.** -/
theorem isAt_position {front back : List Char} :
    ((ofChars (front ++ back)).position (byteLength front)).IsAt (front ++ back)
      (byteLength front) := by
  obtain ⟨lines, part, rfl, full, unbroken⟩ := exists_lines front
  exact ⟨lines, part, back, rfl, rfl, full, unbroken, position_of_lines back full unbroken⟩

end LineIndex

namespace Position

/-- A place has one position, which the line index gives. -/
theorem IsAt.eq_position {position : Position} {content : String} {offset : Nat}
    (here : position.IsAt content.toList offset) :
    position = (LineIndex.ofText content).position offset := by
  obtain ⟨lines, part, rest, parts, rfl, full, unbroken, rfl⟩ := here
  rw [LineIndex.ofText, parts, LineIndex.position_of_lines rest full unbroken]

/-- **Of two places in a text the earlier has the smaller position**, as far as the text is short
enough for the numbers of the later one. -/
theorem IsAt.lt {content : String} {first second : Position} {offset offset' : Nat}
    (here : first.IsAt content.toList offset) (there : second.IsAt content.toList offset')
    (earlier : offset < offset') (within : offset' ≤ content.utf8ByteSize)
    (short : offset' + 1 < 2 ^ 32) : first.lt second = true := by
  obtain ⟨start, starts⟩ := exists_startsLine (bytesOf content) offset'
  have few := count_take_le_offset (bytesOf content) offset'
  rw [here.eq_position, there.eq_position]
  exact LineIndex.position_lt_of_lt earlier within starts (by omega) (by omega)

end Position

end GoRefactor
