import GoRefactor.Proofs.Edit.Renaming
import GoRefactor.Proofs.Go.Mentions
import GoRefactor.Proofs.Go.Parser.Formed

/-!
# Names and their tokens

Every name that a scanned file declares or mentions comes from one token: it is the text of an
identifier, or what an import without an alias makes of its literal. No two tokens that cover text
start at one place, so a place has one name.
-/

namespace GoRefactor

namespace Lexeme

/-- A token that is written in the text covers some of it. -/
theorem lt_of_mem_tokensFrom {offset line : Nat} {closable : Bool} {lexemes : List Lexeme}
    (solid : Solid lexemes) {token : Token}
    (member : token ∈ tokensFrom offset line closable lexemes)
    (written : token.kind = .identifier ∨ token.kind = .literal) :
    token.span.start < token.span.stop := by
  obtain ⟨front, back, rfl, -, -, makes⟩ := exists_makes_of_mem_tokensFrom member
  cases makes with
  | @written lexeme rest _ place line made =>
    have behind : Solid (lexeme :: rest) := fun other held =>
      solid other (List.mem_append_right front held)
    rw [(token?_eq_some made).1]
    exact Nat.lt_add_of_pos_right behind.head
  | inserted => simp at written
  | finish => simp at written

end Lexeme

namespace TokenStream

variable {content : List Char} {stream : TokenStream}

/-- A token that can stand for a name, or for the path of an import, covers some text. -/
theorem lt_of_mem (scanned : ofChars? content = .ok stream) {token : Token}
    (member : token ∈ stream.tokens) (written : token.Names ∨ token.kind = .literal) :
    token.span.start < token.span.stop := by
  obtain ⟨lexemes, -, cut, tokens⟩ := lexemes_of_ofChars? scanned
  rw [tokens] at member
  have solid := Lexeme.solid_of_cut cut
  rcases written with (identifier | dot) | literal
  · exact Lexeme.lt_of_mem_tokensFrom solid member (Or.inl identifier)
  · obtain ⟨front, back, -, span⟩ := Lexeme.tokensFrom_covers member
    have text : token.text = "." := by
      simpa [Token.is] using (Bool.and_eq_true_iff.mp dot).2
    rw [span, text]
    exact Nat.lt_add_of_pos_right (by decide)
  · exact Lexeme.lt_of_mem_tokensFrom solid member (Or.inr literal)

/-- Two tokens that cover text and start at one place are the same. -/
theorem eq_of_start_eq (scanned : ofChars? content = .ok stream) {token other : Token}
    (member : token ∈ stream.tokens) (member' : other ∈ stream.tokens)
    (covers : token.span.start < token.span.stop) (covers' : other.span.start < other.span.stop)
    (same : token.span.start = other.span.start) : token = other := by
  obtain ⟨lexemes, -, -, tokens⟩ := lexemes_of_ofChars? scanned
  have sorted := (Lexeme.tokensFrom_ordered 0 1 false lexemes).2
  rw [← tokens] at sorted
  by_contra apart
  rcases List.pairwise_iff_getElem.mp sorted, List.getElem_of_mem member,
    List.getElem_of_mem member' with ⟨ordered, ⟨i, bound, rfl⟩, ⟨j, bound', rfl⟩⟩
  rcases Nat.lt_trichotomy i j with before | rfl | behind
  · have := ordered i j bound bound' before
    omega
  · exact apart rfl
  · have := ordered j i bound' bound behind
    omega

end TokenStream

/-- The name that a token gives: its text, or what an import makes of its literal. -/
def Token.called (token : Token) : String :=
  if token.kind = .literal then lastSegment (unquoted token.text) else token.text

namespace TokenStream

variable {stream : TokenStream}

/-- A token of the stream gives the name at the span. -/
def Calls (stream : TokenStream) (name : String) (span : Span) : Prop :=
  ∃ token ∈ stream.tokens, (token.Names ∨ token.kind = .literal) ∧ token.span = span ∧
    token.called = name

/-- A token that can stand for a name gives its text. -/
theorem calls_of_hasName {name : String} {span : Span} (named : stream.hasName name span = true) :
    stream.Calls name span := by
  obtain ⟨token, member, names, text, stands⟩ := hasName_iff.mp named
  refine ⟨token, member, Or.inl names, stands, ?_⟩
  have other : token.kind ≠ .literal := by
    rcases names with identifier | dot
    · rw [identifier]
      exact nofun
    · intro literal
      simp [Token.is, literal] at dot
  rw [Token.called, if_neg other, text]

/-- A place has one name. -/
theorem Calls.unique {content : List Char} (scanned : ofChars? content = .ok stream)
    {name name' : String} {span : Span} (calls : stream.Calls name span)
    (calls' : stream.Calls name' span) : name = name' := by
  obtain ⟨token, member, written, stands, rfl⟩ := calls
  obtain ⟨other, member', written', stands', rfl⟩ := calls'
  have same : token = other :=
    eq_of_start_eq scanned member member' (lt_of_mem scanned member written)
    (lt_of_mem scanned member' written') (by rw [stands, stands'])
  rw [same]

end TokenStream

/-- Change nothing, and fail at a span whose ends are out of order or a name that is not that of a
token. -/
def TokenStream.guard (stream : TokenStream) : SpanVisitor (Except Fault) where
  span span := Span.between span.start span.stop
  name name span := if stream.hasName name span then .ok name else .error ⟨span.start, span.stop⟩

/-- What a scan can put into a file passes the guard. -/
theorem TokenStream.guard_fixes (stream : TokenStream) : stream.FixedBy stream.guard where
  span _ _ order := Span.between_of_le order
  name token member names := if_pos (hasName_iff.mpr ⟨token, member, names, rfl, rfl⟩)

/-- A name that passes the guard is that of a token. -/
theorem TokenStream.hasName_of_sees {stream : TokenStream} {mention : Mention}
    (sees : stream.guard.Sees mention) : stream.hasName mention.1 mention.2 = true := by
  obtain ⟨⟨name, span⟩, visited⟩ := sees
  obtain ⟨named, -⟩ := SpanVisitor.named_eq_ok_iff.mp visited
  simp only [TokenStream.guard] at named
  split at named
  · assumption
  · cases named

namespace SourceFile

/-- The file was read from the tokens of its text. -/
structure ReadFrom (file : SourceFile) (stream : TokenStream) : Prop where
  /-- The tokens are those of the text. -/
  tokens : TokenStream.ofChars? file.content.toList = .ok stream
  /-- Spans are in order and names are those of tokens. -/
  guarded : file.FixedBy stream.guard
  /-- Imports, fields and methods are formed. -/
  formed : file.Formed stream
  /-- Declarations are kept under their names. -/
  keyed : file.Keyed

/-- A scanned file was read from tokens. -/
theorem Scanned.readFrom {file : SourceFile} (scanned : file.Scanned) :
    ∃ stream, file.ReadFrom stream := by
  unfold Scanned at scanned
  cases tokens : TokenStream.ofChars? file.content.toList with
  | error failure =>
    unfold SourceFile.parse at scanned
    rw [tokens] at scanned
    cases scanned
  | ok stream =>
    exact ⟨stream, tokens, fixedBy_of_parse scanned tokens stream.guard_fixes,
      formed_of_parse scanned tokens, keyed_of_parse scanned⟩

/-- A token of the file's text gives the name at the span. -/
def Calls (file : SourceFile) (name : String) (span : Span) : Prop :=
  ∃ stream, TokenStream.ofChars? file.content.toList = .ok stream ∧ stream.Calls name span

/-- A place has one name. -/
theorem Calls.unique {file : SourceFile} {name name' : String} {span : Span}
    (calls : file.Calls name span) (calls' : file.Calls name' span) : name = name' := by
  obtain ⟨stream, scanned, calls⟩ := calls
  obtain ⟨stream', scanned', calls'⟩ := calls'
  cases scanned.symm.trans scanned'
  exact calls.unique scanned calls'

namespace ReadFrom

variable {file : SourceFile} {stream : TokenStream} (read : file.ReadFrom stream)
include read

/-- What the guard has seen has the text of its name. -/
theorem text_eq {name : String} {span : Span} (sees : stream.guard.Sees (name, span)) :
    file.text span = name := by
  obtain ⟨token, member, -, text, stands⟩ :=
    TokenStream.hasName_iff.mp (TokenStream.hasName_of_sees sees)
  simp only at text stands
  unfold SourceFile.text
  rw [← stands, TokenStream.slice?_of_mem read.tokens member, Option.getD_some, text]

/-- What the guard has seen is called by its name. -/
theorem calls {name : String} {span : Span} (sees : stream.guard.Sees (name, span)) :
    file.Calls name span :=
  ⟨stream, read.tokens, TokenStream.calls_of_hasName (TokenStream.hasName_of_sees sees)⟩

/-- **Every mention is spelled in the text.** -/
theorem text_of_mem_mentions {mention : Mention} (member : mention ∈ file.mentions) :
    file.text mention.2 = mention.1 :=
  read.text_eq (read.guarded.sees mention member)

/-- The alias of an import has been seen. -/
theorem sees_alias {decl : Import} (member : decl ∈ file.imports) {name : String} {span : Span}
    (named : decl.aliasName = some name) (stands : decl.aliasSpan = some span) :
    stream.guard.Sees (name, span) := by
  obtain ⟨pathSpan, -, visited⟩ := bind_eq_ok.mp (read.guarded.imports decl member)
  obtain ⟨seen, visited, -⟩ := bind_eq_ok.mp visited
  rw [named, stands] at visited
  obtain ⟨seen, visited, -⟩ := bind_eq_ok.mp visited
  exact ⟨seen, visited⟩

/-- An import is called by its local name. -/
theorem calls_import {decl : Import} (member : decl ∈ file.imports) :
    file.Calls decl.localName decl.nameSpan := by
  obtain ⟨⟨token, inside, literal, path, stands⟩, paired⟩ := read.formed.imports decl member
  unfold Import.localName Import.nameSpan
  cases named : decl.aliasName with
  | none =>
    have absent : decl.aliasSpan = none := by simpa [named] using paired
    rw [absent]
    refine ⟨stream, read.tokens, token, inside, Or.inr literal, stands.symm, ?_⟩
    rw [Token.called, if_pos literal, path]
    rfl
  | some name =>
    cases standing : decl.aliasSpan with
    | none => simp [named, standing] at paired
    | some span => exact read.calls (read.sees_alias member named standing)

end ReadFrom

end SourceFile

end GoRefactor
