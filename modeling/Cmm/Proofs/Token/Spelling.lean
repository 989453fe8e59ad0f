import Cmm.Proofs.Token.Tiling

/-!
# Spellings

The texts that spell a lexeme, and the characters that may stand behind it without being taken for
more of it.
-/

namespace Cmm

/-- A text as a spelling of a lexeme. -/
inductive Spelling : List Char → Lexeme → Prop
  | keyword (word : Keyword) : Spelling word.spelling.toList (.keyword word word.spelling)
  | name {c : Char} {more : List Char} (hc : isWordStart c = true)
      (hmore : ∀ d ∈ more, isWordPart d = true)
      (hword : ∀ word : Keyword, word.spelling.toList ≠ c :: more) :
    Spelling (c :: more) (.name (String.ofList (c :: more)))
  | number {digits : List Char} (hne : digits ≠ []) (hdigits : ∀ d ∈ digits, d.isDigit = true)
      (hlimit : digits.length ≤ Text.digitLimit) :
    Spelling digits (.number (min (Nat.ofDigitChars 10 digits 0) 2147483647 : Nat))
  | string {body : List Char} (hbody : StringBody body false) :
    Spelling ('"' :: (body ++ ['"'])) (.string (String.ofList ('"' :: (body ++ ['"']))))
  | symbol (sign : Symbol) : Spelling sign.spelling.toList (.symbol sign sign.spelling)

theorem Lexeme.ofWord_of_ne {text : String} (h : ∀ word : Keyword, word.spelling ≠ text) :
    ofWord text = .name text := by
  have hnone : Keyword.ofSpelling? text = none :=
    List.find?_eq_none.2 fun word _ => by simpa using h word
  rw [ofWord, hnone]

theorem spelling_ofWord {c : Char} {more : List Char} (hc : isWordStart c = true)
    (hmore : ∀ d ∈ more, isWordPart d = true) :
    Spelling (c :: more) (Lexeme.ofWord (String.ofList (c :: more))) := by
  by_cases hword : ∃ word : Keyword, word.spelling.toList = c :: more
  · obtain ⟨word, hword⟩ := hword
    rw [← hword, String.ofList_toList, Lexeme.ofWord, Keyword.ofSpelling?_spelling]
    exact .keyword word
  · have hne : ∀ word : Keyword, word.spelling.toList ≠ c :: more :=
      fun word h => hword ⟨word, h⟩
    rw [Lexeme.ofWord_of_ne fun word h => hne word (by rw [h, String.toList_ofList])]
    exact .name hc hmore hne

/-- A character that is not taken for more of a lexeme in front of it. -/
def Lexeme.EndsBefore (l : Lexeme) (d : Char) : Prop :=
  match l with
  | .keyword .. | .name _ => isWordPart d = false
  | .number _ => d.isDigit = false
  | .symbol sign _ => ∀ c, sign.spelling.toList = [c] →
    [c, d] ≠ ['/', '/'] ∧ ∀ other : Symbol, other.spelling.toList ≠ [c, d]
  | .string _ | .endOfInput => True

/-- What spells a lexeme is a segment that gives it, in front of the end or of a character that is
not taken for more of it. -/
theorem Spelling.exists_stands {text : List Char} {l : Lexeme} (h : Spelling text l)
    {rest : List Char} (hend : ∀ d ∈ rest.head?, l.EndsBefore d) :
    ∃ s : Segment, s.text = text ∧ s.Stands rest ∧ s.lexeme? = some l := by
  cases h with
  | keyword word =>
      obtain ⟨c, more, htext, hc, hmore⟩ := word.exists_spelling_eq_cons
      refine ⟨⟨_, .word⟩, htext.symm, .word hc hmore hend, ?_⟩
      change some (Lexeme.ofWord (String.ofList (c :: more))) = _
      rw [← htext, String.ofList_toList, Lexeme.ofWord, Keyword.ofSpelling?_spelling]
  | name hc hmore hword =>
      refine ⟨⟨_, .word⟩, rfl, .word hc hmore hend, ?_⟩
      refine congrArg some (Lexeme.ofWord_of_ne fun word h => hword word ?_)
      rw [h, String.toList_ofList]
  | number hne hdigits hlimit => exact ⟨_, rfl, .number hne hdigits hend hlimit, rfl⟩
  | string hbody => exact ⟨_, rfl, .string hbody, rfl⟩
  | symbol sign =>
      obtain ⟨c, hsign⟩ | ⟨c, d, hsign⟩ := sign.spelling_cases
      · exact ⟨_, hsign.symm, .single hsign fun d hd => hend d hd c hsign, rfl⟩
      · exact ⟨_, hsign.symm, .pair hsign, rfl⟩

/-! ## Blanks -/

theorem of_isSpace {p : Char → Bool} {c : Char} (h : isSpace c = true)
    (hp : [' ', '\t', '\r', '\n'].all p = true) : p c = true :=
  List.all_eq_true.1 hp c (isSpace_iff_mem.1 h)

theorem isWordPart_eq_false_of_isSpace {c : Char} (h : isSpace c = true) :
    isWordPart c = false := by
  simpa using of_isSpace (p := fun c => !isWordPart c) h (by decide)

theorem isDigit_eq_false_of_isSpace {c : Char} (h : isSpace c = true) : c.isDigit = false := by
  simpa using of_isSpace (p := fun c => !c.isDigit) h (by decide)

theorem Symbol.notMem_spelling_of_isSpace (sign : Symbol) {c : Char} (h : isSpace c = true) :
    c ∉ sign.spelling.toList := by
  refine of_decide_eq_true (of_isSpace (p := fun c => decide (c ∉ sign.spelling.toList)) h ?_)
  cases sign <;> decide

namespace Segment.Stands

variable {s s' : Segment} {rest : List Char} {l : Lexeme}

theorem of_head? {other : List Char} (h : s.Stands rest) (hline : AtLineEnd rest → AtLineEnd other)
    (hhead : ∀ d ∈ other.head?, d ∈ rest.head? ∨ isSpace d = true) : s.Stands other := by
  have carry : ∀ {Q : Char → Prop}, (∀ d ∈ rest.head?, Q d) → (∀ d, isSpace d = true → Q d) →
      ∀ d ∈ other.head?, Q d :=
    fun hrest hspace d hd => (hhead d hd).elim (hrest d) (hspace d)
  have pairs : ∀ {c d : Char}, isSpace d = true → ∀ sign : Symbol, sign.spelling.toList ≠ [c, d] :=
    fun hd sign hsign => sign.notMem_spelling_of_isSpace hd (by simp [hsign])
  cases h with
  | blank hc => exact .blank hc
  | comment hmark hbody hend => exact .comment hmark hbody (hline hend)
  | word hc hmore hend =>
      exact .word hc hmore (carry hend fun _ => isWordPart_eq_false_of_isSpace)
  | number hne hdigits hend hlimit =>
      exact .number hne hdigits (carry hend fun _ => isDigit_eq_false_of_isSpace) hlimit
  | longNumber hdigits hend hlimit =>
      exact .longNumber hdigits (carry hend fun _ => isDigit_eq_false_of_isSpace) hlimit
  | string hbody => exact .string hbody
  | badString hbody => exact .badString hbody
  | openString hbody htail hend => exact .openString hbody htail (hline hend)
  | pair hsign => exact .pair hsign
  | single hsign hend =>
      refine .single hsign (carry hend fun d hd => ⟨?_, pairs hd⟩)
      rintro heq
      obtain ⟨-, htail⟩ := List.cons.inj heq
      obtain ⟨rfl, -⟩ := List.cons.inj htail
      cases hd
  | illegal hblank hmark hquote hdigit hword hsign hend =>
      exact .illegal hblank hmark hquote hdigit hword hsign (carry hend fun _ => pairs)

theorem atEnd (h : s.Stands rest) : s.Stands [] :=
  h.of_head? (fun _ => nofun) nofun

/-- The characters determine what a piece is. -/
theorem unique {rest' : List Char} (h : s.Stands rest) (h' : s'.Stands rest')
    (htext : s.text = s'.text) : s = s' := by
  obtain ⟨c, more, hmore, hfirst⟩ := h.atEnd.first_eq
  obtain ⟨c', more', hmore', hfirst'⟩ := h'.atEnd.first_eq
  obtain ⟨rfl, rfl⟩ := List.cons.inj (hmore.symm.trans (htext.trans hmore'))
  exact hfirst.symm.trans hfirst'

theorem lexeme?_eq_some_iff (h : s.Stands rest) : s.lexeme? = some l ↔ Spelling s.text l := by
  constructor
  · intro hl
    cases h with
    | word hc hmore _ => exact Option.some.inj hl ▸ spelling_ofWord hc hmore
    | number hne hdigits _ hlimit => exact Option.some.inj hl ▸ .number hne hdigits hlimit
    | string hbody => exact Option.some.inj hl ▸ .string hbody
    | pair hsign | single hsign _ =>
        obtain rfl := Option.some.inj hl
        exact hsign ▸ .symbol _
    | _ => cases hl
  · intro hspelling
    have hend : ∀ d ∈ ([] : List Char).head?, l.EndsBefore d := nofun
    obtain ⟨s', htext, hs', hl⟩ := hspelling.exists_stands hend
    rwa [h.unique hs' htext.symm]

end Segment.Stands

/-! ## Names and strings that can be scanned -/

theorem scannable_name_iff {text : String} :
    (Lexeme.name text).Scannable ↔ Spelling text.toList (.name text) := by
  constructor
  · rintro ⟨⟨c, more, htext, hc, hmore⟩, hkeyword⟩
    have hspelling := spelling_ofWord hc hmore
    rwa [← htext, String.ofList_toList, Lexeme.ofWord, hkeyword] at hspelling
  · generalize hlist : text.toList = chars
    intro h
    cases h with
    | name hc hmore hword =>
        refine ⟨⟨_, _, String.toList_ofList, hc, hmore⟩, List.find?_eq_none.2 fun word _ => ?_⟩
        simp only [decide_eq_true_eq]
        intro heq
        exact hword word (by rw [heq, String.toList_ofList])

theorem scannable_string_iff {raw : String} :
    (Lexeme.string raw).Scannable ↔ Spelling raw.toList (.string raw) := by
  constructor
  · rintro ⟨text, hraw, hscan⟩
    obtain ⟨body, bad, hbody, ⟨rest, rfl⟩ | ⟨tail, rest, htail, hend, rfl⟩⟩ :=
      StringBody.exists_of_text text
    · rw [hbody.scanString_closed] at hscan
      obtain ⟨-, rfl, -, rfl⟩ := StringScan.mk.inj hscan
      have hspelling := Spelling.string hbody
      rwa [← hraw, String.ofList_toList] at hspelling
    · rw [hbody.scanString_open htail hend] at hscan
      cases (StringScan.mk.inj hscan).2.2.1
  · generalize hlist : raw.toList = chars
    intro h
    cases h with
    | string hbody => exact ⟨_, String.toList_ofList, hbody.scanString_closed []⟩

end Cmm
