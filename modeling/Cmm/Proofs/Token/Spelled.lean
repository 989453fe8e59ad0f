import Cmm.Proofs.Token.Plain
import Cmm.Token.Scan

/-!
# Texts that are scanned as they were spelled

A text spells some lexemes if it is scanned as these and nothing is reported.  Where a segment ends
depends on the character behind it, so a text comes with what may follow it, and texts are put
together where each one may stand in front of the next.
-/

namespace Cmm

/-- A segment that neither is reported nor ends the scan, and that is no comment and no carriage
return. -/
structure Segment.Clean (s : Segment) : Prop where
  cause : s.cause? = none
  unreadable : s.unreadable? = none
  small : s.isTooLarge = false
  comment : s.content ≠ .comment
  blank : s.content = .blank → '\r' ∉ s.text

/-- In front of the end, or of a character as `next` says, a text is scanned as some lexemes. -/
def Spelled (text : List Char) (lexemes : List Lexeme) (next : Char → Prop) : Prop :=
  ∀ rest : List Char, (∀ c ∈ rest.head?, next c) → ∃ segments : List Segment,
    Segment.split (text ++ rest) = segments ++ Segment.split rest ∧
      segments.filterMap Segment.lexeme? = lexemes ∧ ∀ s ∈ segments, s.Clean

namespace Spelled

variable {text text' : List Char} {ls ls' : List Lexeme} {next next' : Char → Prop}

theorem nil : Spelled [] [] next := fun _ _ => ⟨[], rfl, rfl, by simp⟩

theorem mono (h : Spelled text ls next) (hnext : ∀ c, next' c → next c) : Spelled text ls next' :=
  fun rest hrest => h rest fun c hc => hnext c (hrest c hc)

theorem append (h : Spelled text ls next) (h' : Spelled text' ls' next')
    (hnext : ∀ rest : List Char, (∀ c ∈ rest.head?, next' c) → ∀ c ∈ (text' ++ rest).head?, next c) :
    Spelled (text ++ text') (ls ++ ls') next' := by
  intro rest hrest
  obtain ⟨segments', hsplit', hls', hclean'⟩ := h' rest hrest
  obtain ⟨segments, hsplit, hls, hclean⟩ := h (text' ++ rest) (hnext rest hrest)
  refine ⟨segments ++ segments', ?_, ?_, ?_⟩
  · rw [List.append_assoc, hsplit, hsplit', List.append_assoc]
  · rw [List.filterMap_append, hls, hls']
  · intro s hs
    rcases List.mem_append.1 hs with hs | hs
    · exact hclean s hs
    · exact hclean' s hs

theorem before (h : Spelled text ls fun _ => True) (h' : Spelled text' ls' next') :
    Spelled (text ++ text') (ls ++ ls') next' :=
  h.append h' fun _ _ _ _ => trivial

theorem beforeHead (h : Spelled text ls next) (h' : Spelled text' ls' next')
    (hne : text' ≠ []) (hnext : ∀ c ∈ text'.head?, next c) :
    Spelled (text ++ text') (ls ++ ls') next' := by
  refine h.append h' fun rest _ c hc => hnext c ?_
  cases text' with
  | nil => exact absurd rfl hne
  | cons d more => exact hc

theorem of_first {c : Char} {more : List Char} {s : Segment} (hs : s.text = c :: more)
    (hclean : s.Clean) (hfirst : ∀ rest : List Char, (∀ d ∈ rest.head?, next d) →
      Segment.first c (more ++ rest) = s) :
    Spelled (c :: more) s.lexeme?.toList next := by
  intro rest hrest
  refine ⟨[s], ?_, ?_, by simpa using hclean⟩
  · rw [List.cons_append, Segment.split_cons, hfirst rest hrest, hs]
    simp
  · cases hl : s.lexeme? <;> simp [hl]

end Spelled

/-! ## Blanks, words and symbols -/

theorem spelled_blank : Spelled [' '] [] fun _ => True :=
  .of_first (s := ⟨[' '], .blank⟩) rfl ⟨rfl, rfl, rfl, nofun, by decide⟩ fun _ _ => rfl

theorem spelled_lineFeed : Spelled ['\n'] [] fun _ => True :=
  .of_first (s := ⟨['\n'], .blank⟩) rfl ⟨rfl, rfl, rfl, nofun, by decide⟩ fun _ _ => rfl

theorem spelled_spaces (n : Nat) : Spelled (List.replicate n ' ') [] fun _ => True := by
  induction n with
  | zero => exact .nil
  | succ n ih => exact spelled_blank.before ih

def EndsWord (c : Char) : Prop := isWordPart c = false

private theorem inRanges_add (low count : Nat) {ranges : List (Nat × Nat)} {value : Bool}
    (h : ∀ i ∈ List.range count, Text.inRanges ranges (low + i) = value) {n : Nat} (hlow : low ≤ n)
    (hhigh : n < low + count) : Text.inRanges ranges n = value := by
  have := h (n - low) (List.mem_range.2 (by omega))
  rwa [Nat.add_sub_cancel' hlow] at this

theorem not_isDigit_of_isWordStart {c : Char} (h : isWordStart c = true) : c.isDigit = false := by
  rw [Bool.eq_false_iff]
  intro hc
  obtain ⟨hlow, hhigh⟩ := Char.isDigit_iff_toNat.1 hc
  have hletter : Text.isLetter c = false :=
    inRanges_add 48 10 (by decide) hlow (Nat.lt_succ_of_le hhigh)
  have hunderscore : c ≠ '_' := by
    rintro rfl
    exact absurd hhigh (by decide)
  simp [isWordStart, hletter, hunderscore] at h

theorem isWordPart_of_isDigit {c : Char} (h : c.isDigit = true) : isWordPart c = true := by
  obtain ⟨hlow, hhigh⟩ := Char.isDigit_iff_toNat.1 h
  have hnumeric : Text.inRanges Text.numericRanges c.toNat = true :=
    inRanges_add 48 10 (by decide) hlow (Nat.lt_succ_of_le hhigh)
  simp [isWordPart, Text.isAlphanumeric, hnumeric]

/-- What begins a word or a number is no blank, and begins neither a comment nor a string. -/
private theorem plain_of_test {p : Char → Bool} {c : Char} (hc : p c = true)
    (hp : [' ', '\t', '\r', '\n', '#', '/', '"'].any p = false) (rest : List Char) :
    isSpace c = false ∧ Segment.startsComment c rest = false ∧ c ≠ '"' := by
  have hother : ∀ d ∈ [' ', '\t', '\r', '\n', '#', '/', '"'], c ≠ d := by
    rintro d hd rfl
    exact List.any_eq_false.1 hp c hd hc
  simp only [List.forall_mem_cons] at hother
  simp [isSpace, Segment.startsComment, hother]

theorem first_of_isWordStart {c : Char} (h : isWordStart c = true) (rest : List Char) :
    Segment.first c rest = ⟨c :: rest.takeWhile isWordPart, .word⟩ := by
  obtain ⟨hspace, hcomment, hquote⟩ := plain_of_test h (by decide) rest
  simp [Segment.first, not_isDigit_of_isWordStart h, *]

theorem first_of_isDigit {c : Char} (h : c.isDigit = true) (rest : List Char) :
    Segment.first c rest = Segment.ofDigits (c :: rest.takeWhile Char.isDigit) := by
  obtain ⟨hspace, hcomment, hquote⟩ := plain_of_test h (by decide) rest
  simp [Segment.first, *]

theorem takeWhile_append_of_stops {α : Type} {p : α → Bool} {more rest : List α}
    (hmore : ∀ d ∈ more, p d = true) (hrest : ∀ d ∈ rest.head?, p d = false) :
    (more ++ rest).takeWhile p = more := by
  rw [List.takeWhile_append_of_pos hmore]
  cases rest with
  | nil => simp
  | cons d rest => simp [hrest d rfl]

theorem spelled_word {c : Char} {more : List Char} (hc : isWordStart c = true)
    (hmore : ∀ d ∈ more, isWordPart d = true) :
    Spelled (c :: more) [Lexeme.ofWord (String.ofList (c :: more))] EndsWord := by
  refine .of_first (s := ⟨c :: more, .word⟩) rfl ⟨rfl, rfl, rfl, nofun, nofun⟩ fun rest hrest => ?_
  rw [first_of_isWordStart hc, takeWhile_append_of_stops hmore hrest]

theorem Keyword.exists_spelling_eq_cons (word : Keyword) : ∃ c more,
    word.spelling.toList = c :: more ∧ isWordStart c = true ∧
      ∀ d ∈ more, isWordPart d = true := by
  cases word <;>
    exact ⟨_, _, rfl, by decide, List.all_eq_true.1 (by decide)⟩

theorem spelled_keyword (word : Keyword) :
    Spelled word.spelling.toList [.ofKeyword word] EndsWord := by
  obtain ⟨c, more, htext, hc, hmore⟩ := word.exists_spelling_eq_cons
  have hword : Lexeme.ofWord (String.ofList (c :: more)) = .ofKeyword word := by
    rw [← htext, String.ofList_toList, Lexeme.ofWord, Keyword.ofSpelling?_spelling]
    rfl
  rw [htext, ← hword]
  exact spelled_word hc hmore

theorem first_of_sign {sign : Symbol} {c : Char} {more rest : List Char}
    (hsign : sign.spelling.toList = c :: more) (hcomment : Segment.startsComment c rest = false) :
    Segment.first c rest = Segment.ofSign c rest := by
  have hplain : isSpace c = false ∧ c ≠ '"' ∧ c.isDigit = false ∧ isWordStart c = false := by
    cases sign <;> obtain ⟨rfl, -⟩ := List.cons.inj hsign <;> decide
  obtain ⟨hspace, hquote, hdigit, hword⟩ := hplain
  simp [Segment.first, *]

def Symbol.EndsBefore (sign : Symbol) (d : Char) : Prop :=
  ∀ c, sign.spelling.toList = [c] → Symbol.ofPair? c d = none ∧ Segment.startsComment c [d] = false

theorem spelled_symbol (sign : Symbol) :
    Spelled sign.spelling.toList [.ofSymbol sign] sign.EndsBefore := by
  have hspelling : (∃ c, sign.spelling.toList = [c] ∧ Symbol.ofChar? c = some sign ∧
      Segment.startsComment c [] = false) ∨ ∃ c d, sign.spelling.toList = [c, d] ∧
        Symbol.ofPair? c d = some sign ∧ Segment.startsComment c [d] = false := by
    cases sign <;> first
      | exact .inl ⟨_, rfl, by decide, by decide⟩
      | exact .inr ⟨_, _, rfl, by decide, by decide⟩
  rcases hspelling with ⟨c, htext, hchar, hcomment⟩ | ⟨c, d, htext, hpair, hcomment⟩
  · have hfirst : ∀ rest : List Char, (∀ d ∈ rest.head?, sign.EndsBefore d) →
        Segment.first c rest = ⟨[c], .symbol sign⟩ := by
      intro rest hrest
      cases rest with
      | nil => rw [first_of_sign htext hcomment, Segment.ofSign, List.head?_nil, Option.bind_none, hchar]
      | cons d rest =>
          obtain ⟨hpair, hcomment⟩ := hrest d rfl c htext
          have hcomment' : Segment.startsComment c (d :: rest) = false := hcomment
          rw [first_of_sign htext hcomment', Segment.ofSign, List.head?_cons, Option.bind_some, hpair,
            hchar]
    rw [htext]
    exact .of_first (s := ⟨[c], .symbol sign⟩) rfl ⟨rfl, rfl, rfl, nofun, nofun⟩ hfirst
  · have hfirst : ∀ rest : List Char, Segment.first c ([d] ++ rest) = ⟨[c, d], .symbol sign⟩ := by
      intro rest
      have hcomment' : Segment.startsComment c (d :: rest) = false := hcomment
      rw [List.singleton_append, first_of_sign htext hcomment', Segment.ofSign, List.head?_cons,
        Option.bind_some, hpair, ← htext]
    rw [htext]
    exact .of_first (s := ⟨[c, d], .symbol sign⟩) rfl ⟨rfl, rfl, rfl, nofun, nofun⟩
      fun rest _ => hfirst rest

theorem Symbol.ofPair?_eq_none {c d : Char}
    (h : ∀ sign : Symbol, sign.spelling.toList ≠ [c, d]) : ofPair? c d = none :=
  List.find?_eq_none.2 fun sign _ => by simpa using h sign

theorem Symbol.endsBefore_blank (sign : Symbol) : sign.EndsBefore ' ' := by
  intro c hc
  cases sign <;> cases hc <;> exact ⟨by decide, by decide⟩

theorem Symbol.endsBefore_of_mem {sign : Symbol} (h : sign ∈ [.dot, .leftParen, .rightParen,
    .leftCurly, .rightCurly, .semicolon, .comma, .plusPlus, .minusMinus]) (d : Char) :
    sign.EndsBefore d := by
  intro c hc
  cases sign <;> first
    | exact absurd h (by decide)
    | (cases hc
       refine ⟨ofPair?_eq_none fun other hother => ?_, rfl⟩
       cases other <;> cases hother)
    | cases hc

theorem spelled_punctuation (sign : Symbol) (h : sign ∈ [.dot, .leftParen, .rightParen,
    .leftCurly, .rightCurly, .semicolon, .comma, .plusPlus, .minusMinus]) :
    Spelled sign.spelling.toList [.ofSymbol sign] fun _ => True :=
  (spelled_symbol sign).mono fun d _ => Symbol.endsBefore_of_mem h d

theorem spelled_symbol_blank (sign : Symbol) :
    Spelled (sign.spelling.toList ++ [' ']) [.ofSymbol sign] fun _ => True :=
  (spelled_symbol sign).beforeHead spelled_blank (by simp) (by simpa using sign.endsBefore_blank)

theorem endsWord_blank : EndsWord ' ' := by
  unfold EndsWord
  decide

theorem spelled_keyword_blank (word : Keyword) :
    Spelled (word.spelling.toList ++ [' ']) [.ofKeyword word] fun _ => True :=
  (spelled_keyword word).beforeHead spelled_blank (by simp) (by simpa using endsWord_blank)

/-! ## Names, numbers and strings -/

/-- A lexeme that scanning gives, if it is a name, a number or a string. -/
def Lexeme.Scannable : Lexeme → Prop
  | .name text => (∃ c more, text.toList = c :: more ∧ isWordStart c = true ∧
      ∀ d ∈ more, isWordPart d = true) ∧ Keyword.ofSpelling? text = none
  | .number value => 0 ≤ value ∧ value ≤ maxNumber
  | .string raw => ∃ body, raw.toList = '"' :: body ∧ scanString body = ⟨body, [], true, false⟩
  | _ => True

theorem spelled_name {text : String} (h : (Lexeme.name text).Scannable) :
    Spelled text.toList [.name text] EndsWord := by
  obtain ⟨⟨c, more, htext, hc, hmore⟩, hkeyword⟩ := h
  have hword : Lexeme.ofWord (String.ofList (c :: more)) = .name text := by
    rw [← htext, String.ofList_toList, Lexeme.ofWord, hkeyword]
  rw [htext, ← hword]
  exact spelled_word hc hmore

theorem toList_toString_natCast (n : Nat) : (toString (n : Int)).toList = Nat.toDigits 10 n := by
  rw [Int.toString_eq_repr, Int.repr_eq_if, if_pos (Int.natCast_nonneg n)]
  simp

theorem spelled_number {value : Int} (h : (Lexeme.number value).Scannable) :
    Spelled (toString value).toList [.number value] EndsWord := by
  obtain ⟨hlow, hhigh⟩ := h
  obtain ⟨n, rfl⟩ := Int.eq_ofNat_of_zero_le hlow
  have hsmall : n ≤ maxNumber := by omega
  have hlength : (Nat.toDigits 10 n).length ≤ Text.digitLimit := by
    rw [Nat.length_toDigits_le_iff (by decide) (by decide)]
    have hten : maxNumber < 10 ^ 10 := by decide
    have hlimit : 10 ^ 10 ≤ 10 ^ Text.digitLimit := Nat.pow_le_pow_right (by decide) (by decide)
    omega
  have hdigits : ∀ d ∈ Nat.toDigits 10 n, d.isDigit = true := fun d hd =>
    Nat.isDigit_of_mem_toDigits (by decide) (by decide) hd
  have hvalue : numeralValue (Nat.toDigits 10 n) = .ok n := by
    rw [numeralValue, if_neg Nat.toDigits_ne_nil, if_neg (by omega), Nat.ofDigitChars_ten_toDigits]
  rw [toList_toString_natCast]
  cases hc : Nat.toDigits 10 n with
  | nil => exact absurd hc Nat.toDigits_ne_nil
  | cons c more =>
      rw [hc] at hdigits hvalue
      have hlexeme : (Segment.lexeme? ⟨c :: more, .number n⟩).toList = [.number (n : Int)] := by
        simp [Segment.lexeme?, Nat.min_eq_left hsmall]
      rw [← hlexeme]
      refine .of_first rfl
        ⟨rfl, rfl, by simpa [Segment.isTooLarge] using hsmall, nofun, nofun⟩ fun rest hrest => ?_
      have hstop : ∀ d ∈ rest.head?, d.isDigit = false := by
        intro d hd
        rw [Bool.eq_false_iff]
        intro hdigit
        have hpart := isWordPart_of_isDigit hdigit
        rw [hrest d hd] at hpart
        cases hpart
      rw [first_of_isDigit (hdigits c (by simp)),
        takeWhile_append_of_stops (fun d hd => hdigits d (by simp [hd])) hstop, Segment.ofDigits,
        hvalue]

theorem scanString_cons {c : Char} (hquote : c ≠ '"') (hfeed : c ≠ '\n') (hback : c ≠ '\\')
    (text : List Char) : scanString (c :: text) = (scanString text).push [c] false := by
  rw [scanString]
  · exact hquote
  · exact hfeed
  · exact fun h _ => hback h
  · exact fun _ h _ => hback h
  · exact fun _ _ h _ => hback h

theorem scanString_escape {c : Char} (hfeed : c ≠ '\n') (text : List Char) :
    scanString ('\\' :: c :: text) = (scanString text).push ['\\', c] (!isEscape c) := by
  rw [scanString]
  exact hfeed

theorem ne_backslash {c : Char} {text : List Char} (hlone : c = '\\' → text = [] → False)
    (hpair : ∀ d rest, c = '\\' → text = d :: rest → False) : c ≠ '\\' := by
  intro hc
  cases text with
  | nil => exact hlone hc rfl
  | cons d rest => exact hpair d rest hc rfl

theorem scanString_append (rest : List Char) {text : List Char}
    (h : (scanString text).closed = true) :
    scanString (text ++ rest) = { scanString text with rest := (scanString text).rest ++ rest } := by
  fun_induction scanString text with
  | case1 | case3 | case4 | case5 => cases h
  | case2 tail => rfl
  | case6 c tail hc ih =>
      rw [List.cons_append, List.cons_append, scanString_escape hc, ih h]
      rfl
  | case7 c tail hquote hfeed hlone hline hpair ih =>
      have hback := ne_backslash hlone hpair
      rw [List.cons_append, scanString_cons hquote hfeed hback, ih h]
      rfl

theorem spelled_string {raw : String} (h : (Lexeme.string raw).Scannable) :
    Spelled raw.toList [.string raw] fun _ => True := by
  obtain ⟨body, htext, hbody⟩ := h
  have hraw : raw = String.ofList ('"' :: body) := by rw [← htext, String.ofList_toList]
  rw [htext, hraw]
  refine .of_first (s := ⟨'"' :: body, .string⟩) rfl ⟨rfl, rfl, rfl, nofun, nofun⟩ fun rest _ => ?_
  rw [Segment.first, scanString_append rest (by rw [hbody]), hbody]
  rfl

/-! ## What scanning gives -/

theorem scanString_taken {text : List Char} (h : (scanString text).closed = true) :
    scanString (scanString text).taken = { scanString text with rest := [] } := by
  fun_induction scanString text with
  | case1 | case3 | case4 | case5 => cases h
  | case2 tail => rfl
  | case6 c tail hc ih =>
      change scanString ('\\' :: c :: (scanString tail).taken) = _
      rw [scanString_escape hc, ih h]
      rfl
  | case7 c tail hquote hfeed hlone hline hpair ih =>
      have hback := ne_backslash hlone hpair
      change scanString (c :: (scanString tail).taken) = _
      rw [scanString_cons hquote hfeed hback, ih h]
      rfl

theorem scannable_of_first {c : Char} {rest : List Char} {l : Lexeme}
    (h : (Segment.first c rest).lexeme? = some l) : l.Scannable := by
  unfold Segment.first at h
  split at h
  · cases h
  split at h
  · cases h
  split at h
  · rename_i hquote
    dsimp only at h
    split at h
    · rename_i hcause
      obtain rfl := Option.some.inj h
      obtain ⟨hclosed, hgood⟩ : (scanString rest).closed = true ∧
          (scanString rest).badEscape = false := by
        unfold StringScan.cause? at hcause
        split at hcause <;> simp_all
      refine ⟨(scanString rest).taken, ?_, ?_⟩
      · rw [String.toList_ofList, hquote]
      · rw [scanString_taken hclosed]
        simp [hclosed, hgood]
    · cases h
  split at h
  · unfold Segment.ofDigits at h
    split at h
    · obtain rfl := Option.some.inj h
      exact ⟨Int.natCast_nonneg _, Int.ofNat_le.2 (Nat.min_le_right _ _)⟩
    · cases h
  split at h
  · rename_i hword
    have hmore : ∀ d ∈ rest.takeWhile isWordPart, isWordPart d = true := fun d hd =>
      List.all_eq_true.1 List.all_takeWhile d hd
    obtain rfl := Option.some.inj h
    unfold Lexeme.ofWord
    split
    · trivial
    · rename_i hkeyword
      exact ⟨⟨c, _, String.toList_ofList, hword, hmore⟩, hkeyword⟩
  · unfold Segment.ofSign at h
    split at h
    · obtain rfl := Option.some.inj h
      trivial
    · split at h
      · obtain rfl := Option.some.inj h
        trivial
      · cases h

theorem scannable_of_mem_split {text : List Char} :
    ∀ s ∈ Segment.split text, ∀ l, s.lexeme? = some l → l.Scannable := by
  fun_induction Segment.split text with
  | case1 => simp
  | case2 c rest s ih =>
      intro s' hs l hl
      rcases List.mem_cons.1 hs with rfl | hs
      · exact scannable_of_first hl
      · exact ih s' hs l hl

theorem map_segment_place (p : Position) (segments : List Segment) :
    (Piece.place p segments).map Piece.segment = segments := by
  induction segments generalizing p with
  | nil => rfl
  | cons s rest ih => rw [Piece.place, List.map_cons, ih]

theorem mem_of_mem_place {position : Position} {segments : List Segment} {piece : Piece}
    (h : piece ∈ Piece.place position segments) : piece.segment ∈ segments := by
  rw [← map_segment_place position segments]
  exact List.mem_map_of_mem h

theorem map_lexeme_filterMap_token? (pieces : List Piece) :
    (pieces.filterMap Piece.token?).map Token.lexeme =
      (pieces.map Piece.segment).filterMap Segment.lexeme? := by
  rw [List.filterMap_map, List.map_filterMap]
  congr 1
  funext piece
  simp only [Piece.token?, Option.map_map, Function.comp]
  cases piece.segment.lexeme? <;> rfl

theorem scannable_of_result {text : List Char} {tokens : List Token}
    (h : (Scan.ofText text).result = .ok tokens) : ∀ t ∈ tokens, t.lexeme.Scannable := by
  intro t ht
  unfold Scan.result Scan.tokens at h
  cases hstop : (Scan.ofText text).stop.bind (·.segment.unreadable?) with
  | some e => simp [hstop] at h
  | none =>
      simp only [hstop] at h
      split at h
      · obtain rfl := Except.ok.inj h
        rcases List.mem_append.1 ht with ht | ht
        · obtain ⟨piece, hpiece, hpt⟩ := List.mem_filterMap.1 ht
          have hsegment := mem_of_mem_place (List.takeWhile_subset _ hpiece)
          obtain ⟨l, hl, rfl⟩ := Option.map_eq_some_iff.1 hpt
          exact scannable_of_mem_split _ hsegment l hl
        · obtain rfl := List.mem_singleton.1 ht
          trivial
      · cases h

theorem Segment.plain_of_lexeme? {s : Segment} {l : Lexeme} (h : s.lexeme? = some l) :
    l.plain = l ∧ l.kind ≠ .endOfInput := by
  unfold Segment.lexeme? at h
  split at h
  · obtain rfl := Option.some.inj h
    unfold Lexeme.ofWord
    split
    · rename_i word hword
      have htext := Keyword.spelling_of_ofSpelling? hword
      exact ⟨by rw [← htext]; rfl, nofun⟩
    · exact ⟨rfl, nofun⟩
  · obtain rfl := Option.some.inj h
    exact ⟨rfl, nofun⟩
  · obtain rfl := Option.some.inj h
    exact ⟨rfl, nofun⟩
  · obtain rfl := Option.some.inj h
    exact ⟨rfl, nofun⟩
  all_goals cases h

theorem flatMap_text_place_split (text : List Char) :
    (Piece.place .start (Segment.split text)).flatMap (·.segment.text) = text := by
  rw [← List.flatMap_map, map_segment_place, Segment.flatMap_text_split]

theorem Scan.ofText_of_readable {text : List Char}
    (h : ∀ s ∈ Segment.split text, s.unreadable? = none) :
    Scan.ofText text =
      ⟨Piece.place .start (Segment.split text), none, Position.start.after text⟩ := by
  have hread : ∀ piece ∈ Piece.place .start (Segment.split text),
      piece.segment.unreadable?.isNone = true :=
    fun piece hpiece => by rw [h _ (mem_of_mem_place hpiece)]; rfl
  have htake : (Piece.place .start (Segment.split text) ++ []).takeWhile _ = _ :=
    List.takeWhile_append_of_pos hread
  have hdrop : (Piece.place .start (Segment.split text) ++ []).dropWhile _ = _ :=
    List.dropWhile_append_of_pos hread
  rw [List.takeWhile_nil, List.append_nil] at htake
  rw [List.dropWhile_nil, List.append_nil] at hdrop
  simp only [Scan.ofText, htake, hdrop, flatMap_text_place_split, List.head?_nil]

/-- The pieces of a text that spells some lexemes. -/
theorem Spelled.split_eq {text : List Char} {ls : List Lexeme} {next : Char → Prop}
    (h : Spelled text ls next) : (Segment.split text).filterMap Segment.lexeme? = ls ∧
      ∀ s ∈ Segment.split text, s.Clean := by
  obtain ⟨segments, hsplit, hls, hclean⟩ := h [] (by simp)
  rw [List.append_nil, Segment.split_nil, List.append_nil] at hsplit
  rw [hsplit]
  exact ⟨hls, hclean⟩

/-- A text that spells some lexemes is scanned as these, and nothing is reported. -/
theorem scan_of_spelled {text : List Char} {ls : List Lexeme} {next : Char → Prop}
    (h : Spelled text ls next) : (Scan.ofText text).errors = [] ∧ (Scan.ofText text).warnings = [] ∧
      ∃ u p, (Scan.ofText text).result = .ok (u ++ [Token.endOfInput p]) ∧
        u.map Token.plain = ls ∧ ∀ t ∈ u, t.kind ≠ .endOfInput := by
  obtain ⟨hls, hclean⟩ := h.split_eq
  have hpieces : ∀ piece ∈ Piece.place .start (Segment.split text), piece.segment.Clean :=
    fun piece hpiece => hclean _ (mem_of_mem_place hpiece)
  have hscan := Scan.ofText_of_readable fun s hs => (hclean s hs).unreadable
  have hlexemes := map_lexeme_filterMap_token? (Piece.place .start (Segment.split text))
  rw [map_segment_place, hls] at hlexemes
  have herrors : (Scan.ofText text).errors = [] := by
    rw [hscan, Scan.errors, List.filterMap_eq_nil_iff]
    exact fun piece hpiece => by rw [Piece.error?, (hpieces piece hpiece).cause]; rfl
  have hwarnings : (Scan.ofText text).warnings = [] := by
    rw [hscan, Scan.warnings, List.filterMap_eq_nil_iff]
    exact fun piece hpiece => by rw [Piece.warning?, (hpieces piece hpiece).small]; rfl
  have hscanned : ∀ t ∈ (Piece.place .start (Segment.split text)).filterMap Piece.token?,
      t.plain = t.lexeme ∧ t.kind ≠ .endOfInput := by
    intro t ht
    obtain ⟨piece, -, hpiece⟩ := List.mem_filterMap.1 ht
    obtain ⟨l, hl, rfl⟩ := Option.map_eq_some_iff.1 hpiece
    exact Segment.plain_of_lexeme? hl
  refine ⟨herrors, hwarnings, _, (Scan.ofText text).finish, ?_, ?_, fun t ht => (hscanned t ht).2⟩
  · rw [Scan.result, herrors, hscan]
    rfl
  · rw [← hlexemes]
    exact List.map_congr_left fun t ht => (hscanned t ht).1

end Cmm
