import Cmm.Proofs.Text.Lines
import Cmm.Proofs.Token.Blanking
import Cmm.Proofs.Token.Order

/-!
# Tokens by lines

No lexeme goes over the end of a line.  So the tokens of a text are those of its lines, and what
opens and closes braces up to a line can be counted line by line.
-/

namespace Cmm

/-! ## Spellings -/

theorem lineFeed_notMem_of_isWordPart {text : List Char} (h : ∀ c ∈ text, isWordPart c = true) :
    '\n' ∉ text := by
  intro hmem
  have hpart := h _ hmem
  revert hpart
  decide

theorem Spelling.lineFeed_notMem {text : List Char} {l : Lexeme} (h : Spelling text l) :
    '\n' ∉ text := by
  cases h with
  | keyword word => cases word <;> decide
  | name hc hmore _ =>
      exact lineFeed_notMem_of_isWordPart
        (List.forall_mem_cons.2 ⟨isWordPart_of_isWordStart hc, hmore⟩)
  | number _ hdigits _ =>
      exact lineFeed_notMem_of_isWordPart fun c hc => isWordPart_of_isDigit (hdigits c hc)
  | string hbody => simp [hbody.lineFeed_notMem]
  | symbol sign => cases sign <;> decide

/-! ## Braces -/

def Symbol.brace : Symbol → Int
  | .leftCurly => 1
  | .rightCurly => -1
  | _ => 0

@[simp] theorem Symbol.brace_leftCurly : leftCurly.brace = 1 := rfl

@[simp] theorem Symbol.brace_rightCurly : rightCurly.brace = -1 := rfl

@[simp] theorem Symbol.brace_of_ne {sign : Symbol} (hleft : sign ≠ .leftCurly)
    (hright : sign ≠ .rightCurly) : sign.brace = 0 := by
  cases sign <;> first | rfl | contradiction

def Lexeme.brace : Lexeme → Int
  | .symbol sign _ => sign.brace
  | _ => 0

@[simp] theorem Lexeme.brace_ofSymbol (sign : Symbol) : (ofSymbol sign).brace = sign.brace := rfl

@[simp] theorem Lexeme.brace_ofKeyword (word : Keyword) : (ofKeyword word).brace = 0 := rfl

@[simp] theorem Lexeme.brace_name (text : String) : (name text).brace = 0 := rfl

/-- The number of braces that are opened less the number of those that are closed. -/
def braces : List Lexeme → Int
  | [] => 0
  | l :: ls => l.brace + braces ls

@[simp] theorem braces_nil : braces [] = 0 := rfl

@[simp] theorem braces_cons (l : Lexeme) (ls : List Lexeme) :
    braces (l :: ls) = l.brace + braces ls := rfl

@[simp] theorem braces_append (ls ls' : List Lexeme) :
    braces (ls ++ ls') = braces ls + braces ls' := by
  induction ls with
  | nil => simp
  | cons l ls ih => simp [ih, Int.add_assoc]

/-! ## Lexemes of a text -/

def lexemesOf (text : List Char) : List Lexeme := (Segment.split text).filterMap Segment.lexeme?

theorem lexemesOf_nil : lexemesOf [] = [] := by
  rw [lexemesOf, Segment.split_nil]
  rfl

theorem lexemesOf_append_lineFeed (front back : List Char) :
    lexemesOf (front ++ '\n' :: back) = lexemesOf front ++ lexemesOf back := by
  rw [lexemesOf, Segment.split_append_lineFeed, List.filterMap_append]
  rfl

theorem Spelled.lexemesOf_eq {text : List Char} {ls : List Lexeme} {next : Char → Prop}
    (h : Spelled text ls next) : lexemesOf text = ls :=
  h.split_eq.1

theorem Spelled.lexemesOf_line {text : List Char} {ls : List Lexeme} {next : Char → Prop}
    (h : Spelled (text ++ ['\n']) ls next) : lexemesOf text = ls := by
  rw [← h.lexemesOf_eq, lexemesOf_append_lineFeed, lexemesOf_nil, List.append_nil]

theorem lexemesOf_indented (width : Nat) (text : List Char) :
    lexemesOf (Text.indented width text) = lexemesOf text := by
  obtain ⟨segments, hsplit, hnone, -⟩ := spelled_spaces width text fun _ _ => trivial
  rw [lexemesOf, Text.indented, hsplit, List.filterMap_append, hnone]
  rfl

/-! ## Tokens of lines -/

def tokensOf (text : List Char) : List Token :=
  (Piece.place .start (Segment.split text)).filterMap Piece.token?

theorem map_lexeme_tokensOf (text : List Char) :
    (tokensOf text).map Token.lexeme = lexemesOf text := by
  rw [tokensOf, map_lexeme_filterMap_token?, map_segment_place, lexemesOf]

theorem exists_of_mem_tokensOf {text : List Char} {t : Token} (h : t ∈ tokensOf text) :
    ∃ u v, text = u ++ v ∧ t.position = .behind u := by
  obtain ⟨piece, hpiece, ht⟩ := List.mem_filterMap.1 h
  rw [Position.start_eq_behind, Piece.place_behind] at hpiece
  obtain ⟨-, u, v, htext, hposition⟩ := Piece.exists_of_mem_behind hpiece
  rw [Segment.flatMap_text_split] at htext
  exact ⟨u, _, htext, (Piece.position_of_token? ht).trans hposition⟩

theorem one_le_line_of_mem_tokensOf {text : List Char} {t : Token} (h : t ∈ tokensOf text) :
    1 ≤ t.position.line := by
  obtain ⟨u, v, -, hposition⟩ := exists_of_mem_tokensOf h
  simp only [hposition, Position.behind]
  omega

theorem line_of_mem_tokensOf {text : List Char} {t : Token} (hline : '\n' ∉ text)
    (h : t ∈ tokensOf text) : t.position.line = 1 := by
  obtain ⟨u, v, htext, hposition⟩ := exists_of_mem_tokensOf h
  have hu : '\n' ∉ u := fun hmem => hline (htext ▸ List.mem_append_left _ hmem)
  simp [hposition, Position.behind, List.count_eq_zero.2 hu]

theorem tokensOf_cons {line : List Char} (hline : '\n' ∉ line) (lines : List (List Char)) :
    tokensOf (Text.terminated (line :: lines)) =
      tokensOf line ++ (tokensOf (Text.terminated lines)).map (Token.shift 1) := by
  have hcount : (1 + line.count '\n' : Int) = 1 := by simp [List.count_eq_zero.2 hline]
  rw [Text.terminated_cons, tokensOf, Scan.place_append_lineFeed, List.filterMap_append,
    List.filterMap_cons_none rfl, Scan.filterMap_token?_shift, hcount]
  rfl

theorem map_lexeme_filter_line {lines : List (List Char)} (h : ∀ line ∈ lines, '\n' ∉ line)
    (i : Nat) :
    ((tokensOf (Text.terminated lines)).filter fun t => t.position.line ≤ (i : Int)).map
      Token.lexeme = (lines.take i).flatMap lexemesOf := by
  induction lines generalizing i with
  | nil => simp [Text.terminated, tokensOf, Segment.split_nil, Piece.place]
  | cons line lines ih =>
      cases i with
      | zero =>
          have hnone : (tokensOf (Text.terminated (line :: lines))).filter
              (fun t => t.position.line ≤ ((0 : Nat) : Int)) = [] := by
            refine List.filter_eq_nil_iff.2 fun t ht => ?_
            have hone := one_le_line_of_mem_tokensOf ht
            simp only [decide_eq_true_eq]
            omega
          rw [hnone]
          rfl
      | succ i =>
          rw [List.forall_mem_cons] at h
          have hfirst : (tokensOf line).filter
              (fun t => t.position.line ≤ ((i + 1 : Nat) : Int)) = tokensOf line := by
            refine List.filter_eq_self.2 fun t ht => ?_
            have hone := line_of_mem_tokensOf h.1 ht
            simp only [decide_eq_true_eq]
            omega
          have hshifted : (fun t : Token => decide (t.position.line ≤ ((i + 1 : Nat) : Int))) ∘
              Token.shift 1 = fun t => decide (t.position.line ≤ (i : Int)) := by
            funext t
            simp [Token.shift, Position.shift]
          rw [tokensOf_cons h.1, List.filter_append, hfirst, List.filter_map, hshifted,
            List.map_append, map_lexeme_tokensOf, List.map_map, List.take_succ_cons,
            List.flatMap_cons, ← ih h.2 i]
          rfl

theorem Spelled.result_eq {text : List Char} {ls : List Lexeme} {next : Char → Prop}
    (h : Spelled text ls next) : (Scan.ofText text).result =
      .ok (tokensOf text ++ [.endOfInput (Position.start.after text)]) := by
  have hscan := Scan.ofText_of_readable fun s hs => (h.split_eq.2 s hs).unreadable
  rw [Scan.result, (scan_of_spelled h).1, hscan]
  rfl

/-- The braces on the first lines are those that the tokens on these lines open and close. -/
theorem Spelled.exists_tokens {lines : List (List Char)} {ls : List Lexeme} {next : Char → Prop}
    (h : Spelled (Text.terminated lines) ls next) (hlines : ∀ line ∈ lines, '\n' ∉ line) :
    ∃ tokens, (Scan.ofText (Text.terminated lines)).result = .ok tokens ∧ ∀ i : Nat,
      braces ((tokens.filter fun t => t.position.line ≤ (i : Int)).map Token.lexeme) =
        braces ((lines.take i).flatMap lexemesOf) := by
  refine ⟨_, h.result_eq, fun i => ?_⟩
  have hend : ∀ p : Position, braces (([Token.endOfInput p].filter fun t =>
      t.position.line ≤ (i : Int)).map Token.lexeme) = 0 := by
    intro p
    rw [List.filter_cons]
    split <;> rfl
  rw [List.filter_append, List.map_append, braces_append, map_lexeme_filter_line hlines, hend,
    Int.add_zero]

end Cmm
