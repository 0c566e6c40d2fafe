import Monkey.Scanner.Pattern
import Monkey.Text.Bytes
import Monkey.Token.Source

/-!
# The scanner

A scanner stands in front of the rest of a source and hands out its tokens one by one. Blanks and
comments are skipped, a character that starts no lexeme becomes an illegal token of its own, and
at the end of the source the scanner hands out end-of-input tokens for ever. `next_eq` says what
the next token is by looking at one lexeme, and `tokenize` is the list of all tokens of a source.
-/

namespace Monkey

/-- A scanner: the text still to be read, its byte offset in the source, and the file's name. -/
structure Scanner where
  rest : List Char
  offset : Nat
  file : String
  deriving DecidableEq

namespace Scanner

/-- The name that stands for the file of a source without one. -/
def defaultFile : String :=
  "shell"

/-- A scanner in front of a whole source. -/
def ofSource (source : String) (file : Option String) : Scanner :=
  ⟨source.toList, 0, file.getD defaultFile⟩

/-- The scanner behind `text`, with `rest` still to be read. -/
def moveBy (scanner : Scanner) (text rest : List Char) : Scanner :=
  ⟨rest, scanner.offset + Text.byteLength text, scanner.file⟩

/-- The token of a kind that is made of `text`, which is what comes next. -/
def tokenOf (scanner : Scanner) (kind : TokenKind) (text : List Char) : Token :=
  ⟨kind, String.ofList text, .ofBytes scanner.offset (Text.byteLength text) scanner.file⟩

/-- What a scanner hands out at the end of its source. -/
def endToken (scanner : Scanner) : Token :=
  ⟨.endOfInput, "EOF", .ofBytes scanner.offset 0 scanner.file⟩

/-- Hands out the next token, looking at no more than `fuel` lexemes. -/
def nextWithin : Nat → Scanner → Token × Scanner
  | 0, scanner => (scanner.endToken, scanner)
  | fuel + 1, scanner =>
    match scanner.rest with
    | [] => (scanner.endToken, scanner)
    | c :: rest =>
      match lexeme? (c :: rest) with
      | none => (scanner.tokenOf .illegal [c], scanner.moveBy [c] rest)
      | some lexeme =>
        let behind := scanner.moveBy lexeme.text lexeme.rest
        match lexeme.pattern.kind? (String.ofList lexeme.text) with
        | some kind => (scanner.tokenOf kind lexeme.text, behind)
        | none => nextWithin fuel behind

/-- Hands out the next token. A lexeme is not empty, so the rest has no more than its length. -/
def next (scanner : Scanner) : Token × Scanner :=
  nextWithin scanner.rest.length scanner

/-! ## The next token -/

@[simp] theorem moveBy_rest (scanner : Scanner) (text rest : List Char) :
    (scanner.moveBy text rest).rest = rest := rfl

@[simp] theorem moveBy_offset (scanner : Scanner) (text rest : List Char) :
    (scanner.moveBy text rest).offset = scanner.offset + Text.byteLength text := rfl

@[simp] theorem moveBy_file (scanner : Scanner) (text rest : List Char) :
    (scanner.moveBy text rest).file = scanner.file := rfl

/-- Fuel beyond the length of the rest changes nothing. -/
theorem nextWithin_eq_next {fuel : Nat} {scanner : Scanner}
    (enough : scanner.rest.length ≤ fuel) : nextWithin fuel scanner = next scanner := by
  induction fuel using Nat.strongRecOn generalizing scanner with
  | _ fuel ih =>
    obtain ⟨rest, offset, file⟩ := scanner
    match fuel, rest, enough with
    | 0, [], _ => rfl
    | fuel + 1, [], _ => rfl
    | fuel + 1, c :: rest, enough =>
      simp only [next, List.length_cons, nextWithin]
      cases found : lexeme? (c :: rest) with
      | none => rfl
      | some lexeme =>
        have shorter := lexeme?_rest_length found
        simp only [List.length_cons] at shorter enough
        simp only
        cases lexeme.pattern.kind? (String.ofList lexeme.text) with
        | some kind => rfl
        | none =>
          simp only
          rw [ih fuel (Nat.lt_succ_self _) (by simp only [moveBy_rest]; omega)]
          by_cases h : rest.length < fuel + 1
          · rw [ih rest.length h (by simp only [moveBy_rest]; omega)]
          · exact absurd enough (by omega)

/-- The next token by the first lexeme: the end, an illegal character, a token or a gap. -/
theorem next_eq (scanner : Scanner) :
    next scanner =
      match scanner.rest with
      | [] => (scanner.endToken, scanner)
      | c :: rest =>
        match lexeme? (c :: rest) with
        | none => (scanner.tokenOf .illegal [c], scanner.moveBy [c] rest)
        | some lexeme =>
          match lexeme.pattern.kind? (String.ofList lexeme.text) with
          | some kind =>
            (scanner.tokenOf kind lexeme.text, scanner.moveBy lexeme.text lexeme.rest)
          | none => next (scanner.moveBy lexeme.text lexeme.rest) := by
  obtain ⟨rest, offset, file⟩ := scanner
  cases rest with
  | nil => rfl
  | cons c rest =>
    simp only [next, List.length_cons, nextWithin]
    cases found : lexeme? (c :: rest) with
    | none => rfl
    | some lexeme =>
      have shorter := lexeme?_rest_length found
      simp only [List.length_cons] at shorter
      simp only
      cases lexeme.pattern.kind? (String.ofList lexeme.text) with
      | some kind => rfl
      | none =>
        simp only
        rw [nextWithin_eq_next (by simp only [moveBy_rest]; omega)]
        rfl

@[simp] theorem next_of_rest_nil {scanner : Scanner} (h : scanner.rest = []) :
    next scanner = (scanner.endToken, scanner) := by
  rw [next_eq, h]

/-- Handing out a token shortens the rest unless the source was at its end. -/
theorem length_next_lt {scanner : Scanner} (more : scanner.rest ≠ []) :
    (next scanner).2.rest.length < scanner.rest.length := by
  generalize len : scanner.rest.length = n
  induction n using Nat.strongRecOn generalizing scanner with
  | _ n ih =>
    subst len
    obtain ⟨rest, offset, file⟩ := scanner
    cases rest with
    | nil => exact absurd rfl more
    | cons c rest =>
      rw [next_eq]
      simp only
      cases found : lexeme? (c :: rest) with
      | none => simp
      | some lexeme =>
        have shorter := lexeme?_rest_length found
        simp only
        cases lexeme.pattern.kind? (String.ofList lexeme.text) with
        | some kind => exact shorter
        | none =>
          simp only
          by_cases last : lexeme.rest = []
          · rw [next_of_rest_nil (by simpa using last)]
            simp [last]
          · exact Nat.lt_trans (ih _ shorter (by simpa using last) rfl) shorter

instance : TokenSource Scanner where
  next := next
  remaining scanner := scanner.rest.length
  remaining_next_lt _ h := length_next_lt (List.length_pos_iff.1 h)
  remaining_next_of_drained _ h := by
    rw [next_of_rest_nil (List.length_eq_zero_iff.1 h)]; exact h
  kind_next_of_drained _ h := by
    rw [next_of_rest_nil (List.length_eq_zero_iff.1 h)]; rfl

end Scanner

/-- The tokens of a source, the last of them the end of input. -/
def tokenize (source : String) (file : Option String) : List Token :=
  TokenSource.drain (Scanner.ofSource source file)

end Monkey
