/-!
# Byte offsets into text

Offsets count the bytes of a text's UTF-8 form. A cut is possible only between two characters, so
every operation that takes an offset can refuse it. Cuts are defined twice: on lists of characters,
where they are easy to reason about, and on strings, where they cost no more than the text that is
cut out. `textBetween?_eq_some_iff`, `dropBytes?_eq_some_iff` and `takeBytes?_eq_some_iff` say that
both cut at the same places.
-/

namespace GoRefactor

/-- Number of bytes a list of characters takes. -/
def byteLength : List Char → Nat
  | [] => 0
  | c :: cs => c.utf8Size + byteLength cs

/-- What is left after the first `count` bytes, unless they end inside a character or past the
end. -/
def dropBytes? : Nat → List Char → Option (List Char)
  | 0, cs => some cs
  | _ + 1, [] => none
  | count + 1, c :: cs =>
    if c.utf8Size ≤ count + 1 then dropBytes? (count + 1 - c.utf8Size) cs else none

/-- The first `count` bytes, unless they end inside a character or past the end. -/
def takeBytes? : Nat → List Char → Option (List Char)
  | 0, _ => some []
  | _ + 1, [] => none
  | count + 1, c :: cs =>
    if c.utf8Size ≤ count + 1 then (takeBytes? (count + 1 - c.utf8Size) cs).map (c :: ·) else none

/-- The empty text has no bytes. -/
@[simp]
theorem byteLength_nil : byteLength [] = 0 := rfl

/-- The first character's bytes come before the rest's. -/
@[simp]
theorem byteLength_cons (c : Char) (cs : List Char) :
    byteLength (c :: cs) = c.utf8Size + byteLength cs := rfl

/-- A text that is not empty has a length. -/
theorem byteLength_pos (c : Char) (cs : List Char) : 0 < byteLength (c :: cs) :=
  Nat.add_pos_left c.utf8Size_pos _

/-- Lengths add up over concatenation. -/
@[simp]
theorem byteLength_append (front back : List Char) :
    byteLength (front ++ back) = byteLength front + byteLength back := by
  induction front with
  | nil => simp
  | cons c cs ih => simp [ih, Nat.add_assoc]

/-- Dropping succeeds exactly at the cuts between two characters. -/
theorem dropBytes?_eq_some_iff {count : Nat} {cs rest : List Char} :
    dropBytes? count cs = some rest ↔ ∃ front, cs = front ++ rest ∧ byteLength front = count := by
  fun_induction dropBytes? count cs with
  | case1 cs =>
    constructor
    · rintro ⟨⟩
      exact ⟨[], rfl, rfl⟩
    · rintro ⟨front, rfl, h⟩
      cases front with
      | nil => rfl
      | cons c front =>
        have := c.utf8Size_pos
        simp at h
        omega
  | case2 count =>
    constructor
    · simp
    · rintro ⟨front, h, hlen⟩
      have : front = [] := by
        cases front with
        | nil => rfl
        | cons => simp at h
      simp [this] at hlen
  | case3 count c cs h ih =>
    rw [ih]
    clear ih
    constructor
    · rintro ⟨front, hcs, hlen⟩
      exact ⟨c :: front, by rw [hcs, List.cons_append], by rw [byteLength_cons, hlen]; omega⟩
    · rintro ⟨front, hcs, hlen⟩
      cases front with
      | nil => simp at hlen
      | cons d front =>
        simp only [List.cons_append, List.cons.injEq] at hcs
        obtain ⟨rfl, rfl⟩ := hcs
        exact ⟨front, rfl, by simp at hlen; omega⟩
  | case4 count c cs h =>
    constructor
    · simp
    · rintro ⟨front, hcs, hlen⟩
      cases front with
      | nil => simp at hlen
      | cons d front =>
        simp only [List.cons_append, List.cons.injEq] at hcs
        obtain ⟨rfl, rfl⟩ := hcs
        simp at hlen
        omega

/-- Taking succeeds exactly at the cuts between two characters. -/
theorem takeBytes?_eq_some_iff {count : Nat} {cs front : List Char} :
    takeBytes? count cs = some front ↔
      ∃ rest, cs = front ++ rest ∧ byteLength front = count := by
  fun_induction takeBytes? count cs generalizing front with
  | case1 cs =>
    constructor
    · rintro ⟨⟩
      exact ⟨cs, rfl, rfl⟩
    · rintro ⟨rest, rfl, h⟩
      cases front with
      | nil => rfl
      | cons c front =>
        have := c.utf8Size_pos
        simp at h
        omega
  | case2 count =>
    constructor
    · simp
    · rintro ⟨rest, h, hlen⟩
      have : front = [] := by
        cases front with
        | nil => rfl
        | cons => simp at h
      simp [this] at hlen
  | case3 count c cs h ih =>
    rw [Option.map_eq_some_iff]
    constructor
    · rintro ⟨inner, hinner, rfl⟩
      obtain ⟨rest, rfl, hlen⟩ := ih.1 hinner
      exact ⟨rest, rfl, by simp; omega⟩
    · rintro ⟨rest, hcs, hlen⟩
      cases front with
      | nil => simp at hlen
      | cons d front =>
        simp only [List.cons_append, List.cons.injEq] at hcs
        obtain ⟨rfl, rfl⟩ := hcs
        exact ⟨front, ih.2 ⟨rest, rfl, by simp at hlen; omega⟩, rfl⟩
  | case4 count c cs h =>
    constructor
    · simp
    · rintro ⟨rest, hcs, hlen⟩
      cases front with
      | nil => simp at hlen
      | cons d front =>
        simp only [List.cons_append, List.cons.injEq] at hcs
        obtain ⟨rfl, rfl⟩ := hcs
        simp at hlen
        omega

/-- A text has as many bytes as its characters. -/
theorem utf8ByteSize_ofList (cs : List Char) : (String.ofList cs).utf8ByteSize = byteLength cs := by
  induction cs with
  | nil => simp
  | cons c cs ih => simp [String.ofList_cons, String.utf8ByteSize_append, ih]

/-- A text has as many bytes as its characters. -/
theorem byteLength_toList (content : String) :
    byteLength content.toList = content.utf8ByteSize := by
  rw [← utf8ByteSize_ofList, String.ofList_toList]

/-- The place of a text at a byte offset, if the offset is between two characters. -/
def boundary? (content : String) (offset : Nat) : Option content.Pos :=
  if valid : String.Pos.Raw.isValid content ⟨offset⟩ = true then
    some (content.pos ⟨offset⟩ (String.Pos.Raw.isValid_eq_true_iff.1 valid))
  else none

/-- The text between two byte offsets, if both are between two characters. -/
def textBetween? (content : String) (start stop : Nat) : Option String := do
  let first ← boundary? content start
  let last ← boundary? content stop
  return content.extract first last

/-- There is a place exactly where the text can be cut. -/
theorem exists_boundary?_eq_some_iff {content : String} {offset : Nat} :
    (∃ place, boundary? content offset = some place) ↔
      ∃ front back, content = front ++ back ∧ front.utf8ByteSize = offset := by
  unfold boundary?
  constructor
  · rintro ⟨place, h⟩
    split at h
    · rename_i valid
      obtain ⟨front, back, happ, hpos⟩ :=
        String.Pos.Raw.isValid_iff_exists_append.1 (String.Pos.Raw.isValid_eq_true_iff.1 valid)
      refine ⟨front, back, happ, ?_⟩
      have := congrArg String.Pos.Raw.byteIdx hpos
      simpa using this.symm
    · simp at h
  · rintro ⟨front, back, happ, hlen⟩
    have valid : String.Pos.Raw.isValid content ⟨offset⟩ = true :=
      String.Pos.Raw.isValid_eq_true_iff.2
        (String.Pos.Raw.isValid_iff_exists_append.2 ⟨front, back, happ, by
          ext; simp [hlen]⟩)
    exact ⟨_, dif_pos valid⟩

/-- A place has the offset that it was asked for. -/
theorem offset_of_boundary? {content : String} {offset : Nat} {place : content.Pos}
    (h : boundary? content offset = some place) : place.offset.byteIdx = offset := by
  unfold boundary? at h
  split at h
  · rw [← Option.some.inj h]
    rfl
  · simp at h

/-- Extracting between the two ends of a part of a text gives that part. -/
theorem extract_eq_of_append {content front middle back : String}
    (parts : content = front ++ middle ++ back) {first last : content.Pos}
    (hfirst : first.offset.byteIdx = front.utf8ByteSize)
    (hlast : last.offset.byteIdx = front.utf8ByteSize + middle.utf8ByteSize) :
    content.extract first last = middle := by
  rw [← String.toByteArray_inj, String.toByteArray_extract, hfirst, hlast]
  subst parts
  rw [String.toByteArray_append, String.toByteArray_append, ByteArray.append_assoc,
    ByteArray.extract_append, ← String.size_toByteArray, ← String.size_toByteArray, Nat.sub_self,
    Nat.add_sub_cancel_left, ByteArray.extract_append_eq_left rfl]
  have : front.toByteArray.extract front.toByteArray.size
      (front.toByteArray.size + middle.toByteArray.size) = ByteArray.empty := by
    apply ByteArray.ext
    simp
  rw [this, ByteArray.empty_append]

/-- The text between two offsets is what stands between two cuts. -/
theorem textBetween?_eq_some_iff {content middle : String} {start stop : Nat}
    (order : start ≤ stop) :
    textBetween? content start stop = some middle ↔
      ∃ front back, content = front ++ middle ++ back ∧ front.utf8ByteSize = start ∧
        middle.utf8ByteSize = stop - start := by
  unfold textBetween?
  simp only [Option.bind_eq_bind, Option.bind_eq_some_iff, Option.pure_def, Option.some.injEq]
  constructor
  · rintro ⟨first, hfirst, last, hlast, rfl⟩
    have start_eq := offset_of_boundary? hfirst
    have stop_eq := offset_of_boundary? hlast
    have le : first ≤ last := by
      rw [String.Pos.le_iff, String.Pos.Raw.le_iff, start_eq, stop_eq]
      exact order
    obtain ⟨middle, hmiddle, _⟩ :=
      (String.Pos.Splits.le_iff_exists_eq_append first.splits last.splits).1 le
    have parts := last.splits.eq_append
    rw [hmiddle] at parts
    have front_size := congrArg String.Pos.Raw.byteIdx first.splits.offset_eq_rawEndPos
    have end_size := congrArg String.Pos.Raw.byteIdx last.splits.offset_eq_rawEndPos
    rw [hmiddle] at end_size
    simp only [String.byteIdx_rawEndPos, String.utf8ByteSize_append] at front_size end_size
    rw [extract_eq_of_append parts front_size end_size]
    exact ⟨_, _, parts, by omega, by omega⟩
  · rintro ⟨front, back, parts, hfront, hmiddle⟩
    have cut : content = front ++ (middle ++ back) := by rw [parts, String.append_assoc]
    have size : (front ++ middle).utf8ByteSize = stop := by
      rw [String.utf8ByteSize_append]
      omega
    obtain ⟨first, hfirst⟩ := exists_boundary?_eq_some_iff.2 ⟨front, middle ++ back, cut, hfront⟩
    obtain ⟨last, hlast⟩ := exists_boundary?_eq_some_iff.2 ⟨front ++ middle, back, parts, size⟩
    refine ⟨first, hfirst, last, hlast, extract_eq_of_append parts ?_ ?_⟩
    · rw [offset_of_boundary? hfirst, hfront]
    · rw [offset_of_boundary? hlast, ← size, String.utf8ByteSize_append]

end GoRefactor
