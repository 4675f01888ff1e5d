import GoRefactor.Text.Position
import Mathlib.Algebra.Group.Nat.Defs
import Mathlib.Data.List.Count

/-!
# Positions in reading order

The search among the line starts ends at the last one that is not behind an offset. So the position
that a line index gives for an offset counts the line breaks in front of it, and the bytes of its
line in front of it, each from one and in 32 bits. As long as both numbers fit, offsets and
positions are in the same order, and a region of positions holds what the span holds that it was
made from. Texts of fewer than 2 ^ 32 bytes all fit but two kinds, which have all of these bytes on
one line or are nothing but line breaks: the position of their end wraps around.
-/

namespace GoRefactor

/-- The byte of a line break. -/
def newline : UInt8 := 10

/-- The bytes of a text. -/
def bytesOf (content : String) : List UInt8 := content.toUTF8.data.toList

/-- The bytes of a text are those of its characters. -/
theorem bytesOf_eq_flatMap (content : String) :
    bytesOf content = content.toList.flatMap String.utf8EncodeChar := by
  rw [bytesOf, String.toUTF8_eq_toByteArray, ← String.utf8Encode_toList, List.utf8Encode,
    List.toList_data_toByteArray]

/-- A text has as many bytes as its length in bytes says. -/
@[simp]
theorem length_bytesOf (content : String) : (bytesOf content).length = content.utf8ByteSize := by
  rw [bytesOf, Array.length_toList]
  rfl

/-- A line break is one byte. -/
theorem utf8EncodeChar_newline : String.utf8EncodeChar '\n' = [newline] := by decide

/-- No other character has the byte of a line break. -/
theorem newline_not_mem_utf8EncodeChar {c : Char} (other : c ≠ '\n') :
    newline ∉ String.utf8EncodeChar c := by
  have apart : c.val.toNat ≠ 10 := fun same => other (Char.ext (UInt32.toNat_inj.mp same))
  intro member
  unfold String.utf8EncodeChar at member
  have toNat {value : Nat} (same : newline = UInt8.ofNat value) : value % 256 = 10 := by
    have numbers := congrArg UInt8.toNat same
    rw [UInt8.toNat_ofNat'] at numbers
    exact numbers.symm
  dsimp only at member
  -- A single byte is the character's number; the bytes of a longer form are 128 at least.
  split at member
  · have number := toNat (List.mem_singleton.mp member)
    omega
  · have long : ∀ value, newline = UInt8.ofNat value → 128 ≤ value → value < 256 → False := by
      intro value same low high
      have number := toNat same
      omega
    split at member
    · simp only [List.mem_cons, List.not_mem_nil, or_false] at member
      rcases member with lead | next
      · exact long _ lead (by omega) (by omega)
      · exact long _ next (by omega) (by omega)
    · split at member
      · simp only [List.mem_cons, List.not_mem_nil, or_false] at member
        rcases member with lead | next | next
        · exact long _ lead (by omega) (by omega)
        · exact long _ next (by omega) (by omega)
        · exact long _ next (by omega) (by omega)
      · simp only [List.mem_cons, List.not_mem_nil, or_false] at member
        rcases member with lead | next | next | next
        · exact long _ lead (by omega) (by omega)
        · exact long _ next (by omega) (by omega)
        · exact long _ next (by omega) (by omega)
        · exact long _ next (by omega) (by omega)

/-- A line starts at `start`, and the bytes from there up to `offset` are on it. -/
structure StartsLine (bytes : List UInt8) (start offset : Nat) : Prop where
  /-- The start is not behind the offset. -/
  le : start ≤ offset
  /-- The start is that of the text, or just behind a line break. -/
  first : start = 0 ∨ bytes[start - 1]? = some newline
  /-- No line break stands between. -/
  unbroken : newline ∉ (bytes.take offset).drop start

/-- Every offset is on a line. -/
theorem exists_startsLine (bytes : List UInt8) (offset : Nat) :
    ∃ start, StartsLine bytes start offset := by
  induction offset with
  | zero => exact ⟨0, Nat.le_refl 0, Or.inl rfl, List.not_mem_nil⟩
  | succ offset ih =>
    obtain ⟨start, le, first, unbroken⟩ := ih
    by_cases breaks : bytes[offset]? = some newline
    · refine ⟨offset + 1, Nat.le_refl _, Or.inr breaks, ?_⟩
      rw [List.drop_eq_nil_of_le (List.length_take_le _ _)]
      exact List.not_mem_nil
    · refine ⟨start, Nat.le_succ_of_le le, first, ?_⟩
      intro member
      obtain ⟨place, found⟩ := List.mem_iff_getElem?.mp member
      rw [List.getElem?_drop, List.getElem?_take] at found
      split at found
      · rename_i within
        by_cases last : start + place = offset
        · exact breaks (last ▸ found)
        · refine unbroken (List.mem_iff_getElem?.mpr ⟨place, ?_⟩)
          rw [List.getElem?_drop, List.getElem?_take, if_pos (by omega), found]
      · cases found

/-- No other line start has no line break between it and the offset. -/
theorem StartsLine.unique {bytes : List UInt8} {start start' offset : Nat}
    (starts : StartsLine bytes start offset) (starts' : StartsLine bytes start' offset) :
    start = start' := by
  have not_lt {start start' : Nat} (starts : StartsLine bytes start offset)
      (starts' : StartsLine bytes start' offset) : ¬start < start' := by
    intro less
    refine starts.unbroken (List.mem_iff_getElem?.mpr ⟨start' - 1 - start, ?_⟩)
    have le := starts'.le
    rw [List.getElem?_drop, List.getElem?_take, if_pos (by omega),
      show start + (start' - 1 - start) = start' - 1 by omega]
    exact starts'.first.resolve_left (by omega)
  exact Nat.le_antisymm (Nat.le_of_not_lt (not_lt starts' starts))
    (Nat.le_of_not_lt (not_lt starts starts'))

/-- No line break stands between the start of the line and the offset. -/
theorem StartsLine.count_take {bytes : List UInt8} {start offset : Nat}
    (starts : StartsLine bytes start offset) :
    (bytes.take offset).count newline = (bytes.take start).count newline := by
  have none : ((bytes.take offset).drop start).count newline = 0 :=
    List.count_eq_zero.mpr starts.unbroken
  rw [← List.take_append_drop start (bytes.take offset), List.count_append, none, List.take_take,
    Nat.min_eq_left starts.le, Nat.add_zero]

/-- Where no line break follows, the line goes on. -/
theorem StartsLine.extend {bytes : List UInt8} {start offset offset' : Nat}
    (starts : StartsLine bytes start offset) (further : offset ≤ offset')
    (same : (bytes.take offset').count newline = (bytes.take offset).count newline) :
    StartsLine bytes start offset' := by
  refine ⟨Nat.le_trans starts.le further, starts.first, ?_⟩
  have parts : bytes.take offset' = bytes.take offset ++ (bytes.take offset').drop offset := by
    rw [← Nat.min_eq_left further, ← List.take_take, Nat.min_eq_left further,
      List.take_append_drop]
  have none : newline ∉ (bytes.take offset').drop offset := by
    rw [parts, List.count_append] at same
    exact List.count_eq_zero.mp (by omega)
  rw [parts, List.drop_append]
  intro member
  rcases List.mem_append.mp member with front | back
  · exact starts.unbroken front
  · exact none (List.mem_of_mem_drop back)

/-- No more line breaks stand in front of an earlier offset. -/
theorem count_take_le (bytes : List UInt8) {offset offset' : Nat} (le : offset ≤ offset') :
    (bytes.take offset).count newline ≤ (bytes.take offset').count newline := by
  rw [← Nat.min_eq_left le, ← List.take_take]
  exact (List.take_sublist _ _).count_le _

/-- There are no more line breaks in front of an offset than bytes. -/
theorem count_take_le_offset (bytes : List UInt8) (offset : Nat) :
    (bytes.take offset).count newline ≤ offset :=
  Nat.le_trans List.count_le_length (List.length_take_le _ _)

namespace Position

/-- A number that fits into 32 bits is smaller than another one there if it is smaller. -/
theorem ofNat_lt_ofNat {left right : Nat} (less : left < right) (fits : right < 2 ^ 32) :
    UInt32.ofNat left < UInt32.ofNat right := by
  rw [UInt32.lt_iff_toNat_lt, UInt32.toNat_ofNat_of_lt' (Nat.lt_trans less fits),
    UInt32.toNat_ofNat_of_lt' fits]
  exact less

/-- A position is in front of another on an earlier line, or in an earlier column of its line. -/
theorem lt_iff {left right : Position} : left.lt right = true ↔
    left.line.toNat < right.line.toNat ∨
      left.line.toNat = right.line.toNat ∧ left.column.toNat < right.column.toNat := by
  simp [lt, UInt32.lt_iff_toNat_lt, ← UInt32.toNat_inj]

/-- Of two positions only one comes before the other. -/
theorem lt_asymm {left right : Position} (before : left.lt right = true) :
    ¬right.lt left = true := by
  rw [lt_iff] at *
  omega

end Position

namespace LineIndex

/-- What stands in front of the wanted number among numbers in ascending order is passed over. -/
theorem takeWhile_lt {wanted : Nat} {front back : List Nat} (near : ∀ other ∈ front, other < wanted)
    (ahead : ∀ next ∈ back.head?, wanted ≤ next) :
    (front ++ back).takeWhile (· < wanted) = front := by
  rw [List.takeWhile_append_of_pos fun other member => decide_eq_true (near other member)]
  cases back with
  | nil => exact List.append_nil front
  | cons next rest =>
    rw [List.takeWhile_cons_of_neg (by simpa using ahead next rfl), List.append_nil]

/-- **The search finds the last line start that is not behind the offset.** -/
theorem lineOf_of_starts {index : LineIndex} {offset start : Nat} {front back : List Nat}
    (starts : index.starts = front ++ start :: back) (near : ∀ other ∈ front, other < start)
    (behind : start ≤ offset) (ahead : ∀ next ∈ back.head?, offset < next) :
    index.lineOf offset = front.length := by
  unfold lineOf search
  rw [starts]
  rcases Nat.eq_or_lt_of_le behind with rfl | less
  · rw [takeWhile_lt near fun next first => by cases first; exact Nat.le_refl _]
    simp
  · have passed : (front ++ start :: back).takeWhile (· < offset) = front ++ [start] := by
      have split : front ++ start :: back = (front ++ [start]) ++ back := by simp
      rw [split]
      refine takeWhile_lt (fun other member => ?_) fun next first => Nat.le_of_lt (ahead next first)
      rcases List.mem_append.mp member with earlier | last
      · exact Nat.lt_trans (near other earlier) less
      · exact List.mem_singleton.mp last ▸ less
    have missing : (front ++ start :: back)[(front ++ [start]).length]? ≠ some offset := by
      rw [List.length_append, List.getElem?_append_right (Nat.le_add_right _ _),
        Nat.add_sub_cancel_left]
      intro found
      exact Nat.lt_irrefl offset (ahead offset (List.head?_eq_getElem?.trans found))
    dsimp only
    rw [passed, if_neg missing]
    exact (congrArg (· - 1) List.length_append).trans (Nat.add_sub_cancel _ 1)

/-- Offsets just past each line break among bytes that begin at `offset`. -/
def breakOffsets (offset : Nat) : List UInt8 → List Nat
  | [] => []
  | byte :: rest =>
    if byte = newline then (offset + 1) :: breakOffsets (offset + 1) rest
    else breakOffsets (offset + 1) rest

/-- The lines of bytes in two parts start in the first or in the second. -/
theorem breakOffsets_append (offset : Nat) (front back : List UInt8) :
    breakOffsets offset (front ++ back) =
      breakOffsets offset front ++ breakOffsets (offset + front.length) back := by
  induction front generalizing offset with
  | nil => rfl
  | cons byte rest ih =>
    rw [List.cons_append, breakOffsets, breakOffsets, ih, List.length_cons, Nat.add_assoc offset 1,
      Nat.add_comm 1]
    split <;> rfl

/-- As many lines start behind the first as there are line breaks. -/
theorem length_breakOffsets (offset : Nat) (bytes : List UInt8) :
    (breakOffsets offset bytes).length = bytes.count newline := by
  induction bytes generalizing offset with
  | nil => rfl
  | cons byte rest ih =>
    rw [breakOffsets]
    split
    · rename_i breaks
      rw [breaks, List.count_cons_self, List.length_cons, ih]
    · rename_i stays
      rw [List.count_cons_of_ne stays, ih]

/-- The line breaks of a text are those of its bytes. -/
theorem breaksFrom_eq (offset : Nat) (content : List Char) :
    breaksFrom offset content = breakOffsets offset (content.flatMap String.utf8EncodeChar) := by
  induction content generalizing offset with
  | nil => rfl
  | cons c cs ih =>
    rw [breaksFrom, List.flatMap_cons, breakOffsets_append, String.length_utf8EncodeChar]
    by_cases breaks : c = '\n'
    · rw [if_pos (beq_iff_eq.mpr breaks), ih, breaks, utf8EncodeChar_newline]
      rfl
    · have none : breakOffsets offset (String.utf8EncodeChar c) = [] :=
        List.length_eq_zero_iff.mp ((length_breakOffsets _ _).trans
          (List.count_eq_zero.mpr (newline_not_mem_utf8EncodeChar breaks)))
      rw [if_neg (by simpa using breaks), ih, none, List.nil_append]

/-- Line breaks of bytes are behind the offset at which the bytes begin, and not behind their
end. -/
theorem bounds_of_mem_breakOffsets {offset next : Nat} {bytes : List UInt8}
    (member : next ∈ breakOffsets offset bytes) : offset < next ∧ next ≤ offset + bytes.length := by
  induction bytes generalizing offset with
  | nil => cases member
  | cons byte rest ih =>
    rw [breakOffsets] at member
    rw [List.length_cons]
    split at member
    · rcases List.mem_cons.mp member with rfl | later
      · omega
      · have bounds := ih later
        omega
    · have bounds := ih member
      omega

/-- The start of a line is behind as many line starts as line breaks are in front of its bytes. -/
theorem exists_starts {bytes : List UInt8} {start offset : Nat}
    (starts : StartsLine bytes start offset) (within : offset ≤ bytes.length) : ∃ front back,
      0 :: breakOffsets 0 bytes = front ++ start :: back ∧
      front.length = (bytes.take offset).count newline ∧ (∀ other ∈ front, other < start) ∧
      ∀ next ∈ back.head?, offset < next := by
  have none : ((bytes.take offset).drop start).count newline = 0 :=
    List.count_eq_zero.mpr starts.unbroken
  have length : (bytes.take offset).length = offset := List.length_take_of_le within
  have split : breakOffsets 0 bytes = breakOffsets 0 (bytes.take start) ++
      breakOffsets offset (bytes.drop offset) := by
    have front : bytes.take start = (bytes.take offset).take start := by
      rw [List.take_take, Nat.min_eq_left starts.le]
    have empty (begin : Nat) : breakOffsets begin ((bytes.take offset).drop start) = [] :=
      List.length_eq_zero_iff.mp ((length_breakOffsets _ _).trans none)
    conv_lhs => rw [← List.take_append_drop offset bytes, breakOffsets_append, length,
      ← List.take_append_drop start (bytes.take offset), breakOffsets_append, empty,
      List.append_nil, ← front, Nat.zero_add]
  have count := starts.count_take
  have ahead : ∀ next ∈ (breakOffsets offset (bytes.drop offset)).head?, offset < next :=
    fun next first => (bounds_of_mem_breakOffsets (List.mem_of_mem_head? first)).1
  rcases starts.first with rfl | breaks
  · exact ⟨[], _, congrArg (0 :: ·) split, count.symm, List.forall_mem_nil _, ahead⟩
  · cases start with
    | zero => exact ⟨[], _, congrArg (0 :: ·) split, count.symm, List.forall_mem_nil _, ahead⟩
    | succ place =>
      rw [Nat.add_sub_cancel] at breaks
      obtain ⟨inside, last⟩ := List.getElem?_eq_some_iff.mp breaks
      have line : bytes.take (place + 1) = bytes.take place ++ [newline] := by
        rw [List.take_succ_eq_append_getElem inside, last]
      have size : (bytes.take place).length = place := List.length_take_of_le (Nat.le_of_lt inside)
      refine ⟨0 :: breakOffsets 0 (bytes.take place), _, ?_, ?_, ?_, ahead⟩
      · rw [split, line, breakOffsets_append, size, Nat.zero_add]
        simp [breakOffsets]
      · rw [count, line, List.length_cons, length_breakOffsets, List.count_append]
        rfl
      · refine List.forall_mem_cons.mpr ⟨Nat.succ_pos _, fun other member => ?_⟩
        have bounds := bounds_of_mem_breakOffsets member
        omega

/-- The index of a text knows its length. -/
theorem length_ofText (content : String) : (ofText content).length = content.utf8ByteSize :=
  byteLength_toList content

/-- **The position of an offset counts the line breaks in front of it and the bytes of its line in
front of it**, each from one and in 32 bits. -/
theorem position_eq {content : String} {start offset : Nat}
    (starts : StartsLine (bytesOf content) start offset) (within : offset ≤ content.utf8ByteSize) :
    (ofText content).position offset =
      ⟨UInt32.ofNat (1 + ((bytesOf content).take offset).count newline),
        UInt32.ofNat (1 + (offset - start))⟩ := by
  obtain ⟨front, back, split, count, near, ahead⟩ :=
    exists_starts starts ((length_bytesOf content).symm ▸ within)
  have listed : (ofText content).starts = front ++ start :: back := by
    rw [LineIndex.starts, ofText, ofChars, breaksFrom_eq, ← bytesOf_eq_flatMap, split]
  have first : (ofText content).starts.getD front.length 0 = start := by simp [listed]
  rw [position, length_ofText, Nat.min_eq_left within, lineOf_of_starts listed near starts.le ahead,
    first, count, Nat.add_comm 1, Nat.add_comm 1, UInt32.ofNat_add, UInt32.ofNat_add]
  rfl

end LineIndex

namespace LineIndex

/-- **The smaller of two offsets has the earlier position**, if the numbers of the later one fit. -/
theorem position_lt_of_lt {content : String} {offset offset' start' : Nat}
    (less : offset < offset') (within : offset' ≤ content.utf8ByteSize)
    (starts' : StartsLine (bytesOf content) start' offset')
    (line : 1 + ((bytesOf content).take offset').count newline < 2 ^ 32)
    (column : 1 + (offset' - start') < 2 ^ 32) :
    ((ofText content).position offset).lt ((ofText content).position offset') = true := by
  obtain ⟨start, starts⟩ := exists_startsLine (bytesOf content) offset
  rw [position_eq starts (Nat.le_trans (Nat.le_of_lt less) within), position_eq starts' within]
  simp only [Position.lt, Bool.or_eq_true, decide_eq_true_eq, Bool.and_eq_true, beq_iff_eq]
  rcases Nat.eq_or_lt_of_le (count_take_le (bytesOf content) (Nat.le_of_lt less)) with same | fewer
  · obtain rfl := (starts.extend (Nat.le_of_lt less) same.symm).unique starts'
    have le := starts.le
    exact Or.inr ⟨by rw [same], Position.ofNat_lt_ofNat (by omega) column⟩
  · exact Or.inl (Position.ofNat_lt_ofNat (by omega) line)

end LineIndex

end GoRefactor
