import Cmm.Proofs.Token.StringBody

/-!
# How a source text is cut

What a piece of a source text is can be told from its characters and from the character behind it.
`Tiles` says that a text is cut into pieces of this kind; there is exactly one way to do so, and it
is the one in which the text is scanned.
-/

namespace Cmm

/-! ## Segments -/

/-- A piece of a source text, in front of what follows it. -/
inductive Segment.Stands : Segment → List Char → Prop
  | blank {c : Char} {rest : List Char} (hc : c ∈ [' ', '\t', '\r', '\n']) :
    Stands ⟨[c], .blank⟩ rest
  | comment {mark body rest : List Char} (hmark : mark = ['#'] ∨ mark = ['/', '/'])
      (hbody : '\n' ∉ body) (hend : AtLineEnd rest) : Stands ⟨mark ++ body, .comment⟩ rest
  | word {c : Char} {more rest : List Char} (hc : isWordStart c = true)
      (hmore : ∀ d ∈ more, isWordPart d = true) (hend : ∀ d ∈ rest.head?, isWordPart d = false) :
    Stands ⟨c :: more, .word⟩ rest
  | number {digits rest : List Char} (hne : digits ≠ []) (hdigits : ∀ d ∈ digits, d.isDigit = true)
      (hend : ∀ d ∈ rest.head?, d.isDigit = false) (hlimit : digits.length ≤ Text.digitLimit) :
    Stands ⟨digits, .number (Nat.ofDigitChars 10 digits 0)⟩ rest
  | longNumber {digits rest : List Char} (hdigits : ∀ d ∈ digits, d.isDigit = true)
      (hend : ∀ d ∈ rest.head?, d.isDigit = false) (hlimit : Text.digitLimit < digits.length) :
    Stands ⟨digits, .unreadable (.tooManyDigits Text.digitLimit digits.length)⟩ rest
  | string {body rest : List Char} (hbody : StringBody body false) :
    Stands ⟨'"' :: (body ++ ['"']), .string⟩ rest
  | badString {body rest : List Char} (hbody : StringBody body true) :
    Stands ⟨'"' :: (body ++ ['"']), .malformed .badEscape⟩ rest
  | openString {body tail rest : List Char} {bad : Bool} (hbody : StringBody body bad)
      (htail : tail = [] ∨ tail = ['\\']) (hend : AtLineEnd rest) :
    Stands ⟨'"' :: (body ++ tail),
      .malformed (if bad then .unterminatedBadEscape else .unterminatedString)⟩ rest
  | pair {sign : Symbol} {c d : Char} {rest : List Char} (hsign : sign.spelling.toList = [c, d]) :
    Stands ⟨[c, d], .symbol sign⟩ rest
  | single {sign : Symbol} {c : Char} {rest : List Char} (hsign : sign.spelling.toList = [c])
      (hend : ∀ d ∈ rest.head?, [c, d] ≠ ['/', '/'] ∧
        ∀ other : Symbol, other.spelling.toList ≠ [c, d]) :
    Stands ⟨[c], .symbol sign⟩ rest
  | illegal {c : Char} {rest : List Char} (hblank : c ∉ [' ', '\t', '\r', '\n'])
      (hmark : c ≠ '#') (hquote : c ≠ '"') (hdigit : c.isDigit = false)
      (hword : isWordStart c = false) (hsign : ∀ sign : Symbol, sign.spelling.toList ≠ [c])
      (hend : ∀ d ∈ rest.head?, ∀ sign : Symbol, sign.spelling.toList ≠ [c, d]) :
    Stands ⟨[c], .malformed (.illegalCharacter c)⟩ rest

theorem isSpace_iff_mem {c : Char} : isSpace c = true ↔ c ∈ [' ', '\t', '\r', '\n'] := by
  simp [isSpace, or_assoc]

theorem Symbol.ofPair?_eq_some_iff {c d : Char} {sign : Symbol} :
    ofPair? c d = some sign ↔ sign.spelling.toList = [c, d] := by
  refine ⟨spelling_of_ofPair?, fun h => ?_⟩
  cases sign <;> cases h <;> decide

theorem Symbol.ofChar?_eq_some_iff {c : Char} {sign : Symbol} :
    ofChar? c = some sign ↔ sign.spelling.toList = [c] := by
  refine ⟨spelling_of_ofChar?, fun h => ?_⟩
  cases sign <;> cases h <;> decide

theorem Symbol.spelling_cases (sign : Symbol) :
    (∃ c, sign.spelling.toList = [c]) ∨ ∃ c d, sign.spelling.toList = [c, d] := by
  cases sign <;> first
    | exact .inl ⟨_, rfl⟩
    | exact .inr ⟨_, _, rfl⟩

theorem Symbol.ofPair?_eq_none_iff {c d : Char} :
    ofPair? c d = none ↔ ∀ sign : Symbol, sign.spelling.toList ≠ [c, d] := by
  simp only [Option.eq_none_iff_forall_ne_some, ne_eq, ofPair?_eq_some_iff]

theorem Symbol.ofChar?_eq_none_iff {c : Char} :
    ofChar? c = none ↔ ∀ sign : Symbol, sign.spelling.toList ≠ [c] := by
  simp only [Option.eq_none_iff_forall_ne_some, ne_eq, ofChar?_eq_some_iff]

namespace Segment

theorem startsComment_iff {c : Char} {rest : List Char} :
    startsComment c rest = true ↔ c = '#' ∨ c = '/' ∧ rest.head? = some '/' := by
  simp [startsComment]

/-! ### Every piece is the first segment -/

theorem first_of_mem_blanks {c : Char} (h : c ∈ [' ', '\t', '\r', '\n']) (rest : List Char) :
    first c rest = ⟨[c], .blank⟩ := by
  rw [first, if_pos (isSpace_iff_mem.2 h)]

theorem takeWhile_inLine {body rest : List Char} (hbody : '\n' ∉ body) (hend : AtLineEnd rest) :
    (body ++ rest).takeWhile inLine = body := by
  refine takeWhile_append_of_stops (fun d hd => ?_) fun d hd => ?_
  · simp only [inLine, ne_eq, decide_not, Bool.not_eq_true', decide_eq_false_iff_not]
    rintro rfl
    exact hbody hd
  · simp [inLine, hend d hd]

theorem first_of_quote (rest : List Char) :
    first '"' rest = match (scanString rest).cause? with
      | none => ⟨'"' :: (scanString rest).taken, .string⟩
      | some cause => ⟨'"' :: (scanString rest).taken, .malformed cause⟩ :=
  rfl

theorem ofSign_of_pair {sign : Symbol} {c d : Char} (h : sign.spelling.toList = [c, d])
    (rest : List Char) : ofSign c (d :: rest) = ⟨[c, d], .symbol sign⟩ := by
  rw [ofSign, List.head?_cons, Option.bind_some, Symbol.ofPair?_eq_some_iff.2 h, ← h]

theorem bind_ofPair?_eq_none {c : Char} {rest : List Char}
    (h : ∀ d ∈ rest.head?, ∀ sign : Symbol, sign.spelling.toList ≠ [c, d]) :
    rest.head?.bind (Symbol.ofPair? c) = none := by
  cases rest with
  | nil => rfl
  | cons d rest => exact Symbol.ofPair?_eq_none_iff.2 (h d rfl)

theorem ofSign_of_single {c : Char} {rest : List Char}
    (h : ∀ d ∈ rest.head?, ∀ sign : Symbol, sign.spelling.toList ≠ [c, d]) :
    ofSign c rest = match Symbol.ofChar? c with
      | some sign => ⟨[c], .symbol sign⟩
      | none => ⟨[c], .malformed (.illegalCharacter c)⟩ := by
  cases hsign : Symbol.ofChar? c <;> simp [ofSign, bind_ofPair?_eq_none h, hsign]

/-- A piece is the first segment of the text that it begins. -/
theorem Stands.first_eq {s : Segment} {rest : List Char} (h : s.Stands rest) :
    ∃ c more, s.text = c :: more ∧ first c (more ++ rest) = s := by
  cases h with
  | blank hc => exact ⟨_, [], rfl, first_of_mem_blanks hc rest⟩
  | @comment mark body rest hmark hbody hend =>
      rcases hmark with rfl | rfl
      · refine ⟨'#', body, rfl, ?_⟩
        change (⟨'#' :: (body ++ rest).takeWhile inLine, .comment⟩ : Segment) = _
        rw [takeWhile_inLine hbody hend]
        rfl
      · refine ⟨'/', '/' :: body, rfl, ?_⟩
        change (⟨'/' :: '/' :: (body ++ rest).takeWhile inLine, .comment⟩ : Segment) = _
        rw [takeWhile_inLine hbody hend]
        rfl
  | @word c more rest hc hmore hend =>
      refine ⟨c, more, rfl, ?_⟩
      rw [first_of_isWordStart hc, takeWhile_append_of_stops hmore hend]
  | @number digits rest hne hdigits hend hlimit =>
      obtain ⟨c, more, rfl⟩ := List.exists_cons_of_ne_nil hne
      rw [List.forall_mem_cons] at hdigits
      refine ⟨c, more, rfl, ?_⟩
      rw [first_of_isDigit hdigits.1, takeWhile_append_of_stops hdigits.2 hend, ofDigits,
        numeralValue, if_neg hne, if_neg (Nat.not_lt.2 hlimit)]
  | @longNumber digits rest hdigits hend hlimit =>
      have hne : digits ≠ [] := List.ne_nil_of_length_pos (Nat.zero_lt_of_lt hlimit)
      obtain ⟨c, more, rfl⟩ := List.exists_cons_of_ne_nil hne
      rw [List.forall_mem_cons] at hdigits
      refine ⟨c, more, rfl, ?_⟩
      rw [first_of_isDigit hdigits.1, takeWhile_append_of_stops hdigits.2 hend, ofDigits,
        numeralValue, if_neg hne, if_pos hlimit]
  | @string body rest hbody =>
      refine ⟨'"', body ++ ['"'], rfl, ?_⟩
      rw [first_of_quote, List.append_assoc, List.singleton_append, hbody.scanString_closed]
      rfl
  | @badString body rest hbody =>
      refine ⟨'"', body ++ ['"'], rfl, ?_⟩
      rw [first_of_quote, List.append_assoc, List.singleton_append, hbody.scanString_closed]
      rfl
  | @openString body tail rest bad hbody htail hend =>
      refine ⟨'"', body ++ tail, rfl, ?_⟩
      rw [first_of_quote, List.append_assoc, hbody.scanString_open htail hend]
      cases bad <;> rfl
  | @pair sign c d rest hsign =>
      refine ⟨c, [d], rfl, ?_⟩
      have hcomment : startsComment c ([d] ++ rest) = false := by
        cases sign <;> cases hsign <;> rfl
      rw [first_of_sign hsign hcomment]
      exact ofSign_of_pair hsign rest
  | @single sign c rest hsign hend =>
      refine ⟨c, [], rfl, ?_⟩
      have hcomment : startsComment c rest = false := by
        rw [Bool.eq_false_iff, ne_eq, startsComment_iff]
        rintro (rfl | ⟨rfl, hslash⟩)
        · cases sign <;> cases hsign
        · exact (hend '/' hslash).1 rfl
      rw [List.nil_append, first_of_sign hsign hcomment,
        ofSign_of_single fun d hd => (hend d hd).2, Symbol.ofChar?_eq_some_iff.2 hsign]
  | @illegal c rest hblank hmark hquote hdigit hword hsign hend =>
      refine ⟨c, [], rfl, ?_⟩
      have hslash : c ≠ '/' := by
        rintro rfl
        exact hsign .divide rfl
      rw [List.nil_append, first, if_neg (by rwa [isSpace_iff_mem]),
        if_neg (by simp [startsComment_iff, hmark, hslash]), if_neg hquote, if_neg (by simp [hdigit]),
        if_neg (by simp [hword]), ofSign_of_single hend, Symbol.ofChar?_eq_none_iff.2 hsign]

/-! ### Every text begins with a piece -/

theorem head?_dropWhile_eq_false {α : Type} (p : α → Bool) (xs : List α) :
    ∀ x ∈ (xs.dropWhile p).head?, p x = false := by
  intro x hx
  have h := List.head?_dropWhile_not p xs
  rw [hx] at h
  simpa using h

def Begins (text : List Char) : Prop :=
  ∃ (s : Segment) (rest : List Char), s.Stands rest ∧ s.text ++ rest = text

theorem begins_comment {mark : List Char} (hmark : mark = ['#'] ∨ mark = ['/', '/'])
    (text : List Char) : Begins (mark ++ text) := by
  have hbody : '\n' ∉ text.takeWhile inLine := by
    intro hmem
    have := List.all_eq_true.1 List.all_takeWhile _ hmem
    simp [inLine] at this
  have hend : AtLineEnd (text.dropWhile inLine) := by
    intro c hc
    have := head?_dropWhile_eq_false inLine text c hc
    simpa [inLine] using this
  exact ⟨_, _, .comment hmark hbody hend, by simp⟩

theorem begins_string (text : List Char) : Begins ('"' :: text) := by
  obtain ⟨body, bad, hbody, ⟨rest, rfl⟩ | ⟨tail, rest, htail, hend, rfl⟩⟩ :=
    StringBody.exists_of_text text
  · cases bad with
    | false => exact ⟨_, rest, .string hbody, by simp⟩
    | true => exact ⟨_, rest, .badString hbody, by simp⟩
  · exact ⟨_, rest, .openString hbody htail hend, by simp⟩

theorem begins_number {c : Char} (hc : c.isDigit = true) (text : List Char) :
    Begins (c :: text) := by
  have hdigits : ∀ d ∈ c :: text.takeWhile Char.isDigit, d.isDigit = true :=
    List.forall_mem_cons.2 ⟨hc, List.all_eq_true.1 List.all_takeWhile⟩
  have hend := head?_dropWhile_eq_false Char.isDigit text
  have htext : c :: text.takeWhile Char.isDigit ++ text.dropWhile Char.isDigit = c :: text := by
    simp
  by_cases hlimit : (c :: text.takeWhile Char.isDigit).length ≤ Text.digitLimit
  · exact ⟨_, _, .number (by simp) hdigits hend hlimit, htext⟩
  · exact ⟨_, _, .longNumber hdigits hend (Nat.not_le.1 hlimit), htext⟩

theorem begins_word {c : Char} (hc : isWordStart c = true) (text : List Char) :
    Begins (c :: text) := by
  have hmore : ∀ d ∈ text.takeWhile isWordPart, isWordPart d = true :=
    List.all_eq_true.1 List.all_takeWhile
  exact ⟨_, _, .word hc hmore (head?_dropWhile_eq_false isWordPart text), by simp⟩

theorem begins_sign {c : Char} {text : List Char} (hblank : c ∉ [' ', '\t', '\r', '\n'])
    (hmark : c ≠ '#') (hslash : ¬(c = '/' ∧ text.head? = some '/')) (hquote : c ≠ '"')
    (hdigit : c.isDigit = false) (hword : isWordStart c = false) : Begins (c :: text) := by
  by_cases hpair : ∃ d ∈ text.head?, ∃ sign : Symbol, sign.spelling.toList = [c, d]
  · obtain ⟨d, hd, sign, hsign⟩ := hpair
    obtain ⟨rest, rfl⟩ : ∃ rest, text = d :: rest := by
      cases text with
      | nil => cases hd
      | cons e rest => exact ⟨rest, by rw [Option.some.inj hd]⟩
    exact ⟨_, rest, .pair hsign, rfl⟩
  have hend : ∀ d ∈ text.head?, ∀ sign : Symbol, sign.spelling.toList ≠ [c, d] :=
    fun d hd sign hsign => hpair ⟨d, hd, sign, hsign⟩
  by_cases hsingle : ∃ sign : Symbol, sign.spelling.toList = [c]
  · obtain ⟨sign, hsign⟩ := hsingle
    refine ⟨_, text, .single hsign fun d hd => ⟨?_, hend d hd⟩, rfl⟩
    rintro heq
    obtain ⟨rfl, hd'⟩ := List.cons.inj heq
    obtain ⟨rfl, -⟩ := List.cons.inj hd'
    exact hslash ⟨rfl, hd⟩
  · exact ⟨_, text, .illegal hblank hmark hquote hdigit hword
      (fun sign hsign => hsingle ⟨sign, hsign⟩) hend, rfl⟩

theorem begins (c : Char) (text : List Char) : Begins (c :: text) := by
  by_cases hblank : c ∈ [' ', '\t', '\r', '\n']
  · exact ⟨_, text, .blank hblank, rfl⟩
  by_cases hmark : c = '#'
  · exact hmark ▸ begins_comment (.inl rfl) text
  by_cases hslash : c = '/' ∧ text.head? = some '/'
  · obtain ⟨rfl, hhead⟩ := hslash
    obtain ⟨rest, rfl⟩ := List.head?_eq_some_iff.1 hhead
    exact begins_comment (.inr rfl) rest
  by_cases hquote : c = '"'
  · exact hquote ▸ begins_string text
  cases hdigit : c.isDigit with
  | true => exact begins_number hdigit text
  | false =>
      cases hword : isWordStart c with
      | true => exact begins_word hword text
      | false => exact begins_sign hblank hmark hslash hquote hdigit hword

end Segment

/-! ## Tilings -/

/-- A text is cut into pieces, each of them in front of those behind it. -/
inductive Tiles : List Char → List Segment → Prop
  | nil : Tiles [] []
  | cons {s : Segment} {rest : List Char} {segments : List Segment} (h : s.Stands rest)
      (hrest : Tiles rest segments) : Tiles (s.text ++ rest) (s :: segments)

theorem tiles_split (text : List Char) : Tiles text (Segment.split text) := by
  fun_induction Segment.split text with
  | case1 => exact .nil
  | case2 c text s ih =>
      obtain ⟨s', rest, hs, htext⟩ := Segment.begins c text
      obtain ⟨c', more, hmore, hfirst⟩ := hs.first_eq
      obtain ⟨rfl, rfl⟩ : c' = c ∧ more ++ rest = text := by
        simpa [hmore] using htext
      have heq : s = s' := hfirst
      rw [heq, hmore, List.length_cons, Nat.add_sub_cancel, List.drop_left] at ih ⊢
      rw [← htext]
      exact .cons hs ih

/-- There is exactly one way to cut a text. -/
theorem tiles_iff {text : List Char} {segments : List Segment} :
    Tiles text segments ↔ segments = Segment.split text := by
  refine ⟨fun h => ?_, fun h => h ▸ tiles_split text⟩
  induction h with
  | nil => exact Segment.split_nil.symm
  | cons hs _ ih =>
      obtain ⟨c, more, hmore, hfirst⟩ := hs.first_eq
      rw [hmore, List.cons_append, Segment.split_cons, hfirst, hmore, List.length_cons,
        Nat.add_sub_cancel, List.drop_left, ih]

end Cmm
