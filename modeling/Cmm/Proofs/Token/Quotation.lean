import Cmm.Proofs.Token.Driven
import Cmm.Proofs.Token.StringBody

/-!
# Reading string literals

How far a string literal goes is told by its backslashes: each one that is not taken along itself
takes the next character along, and the first quote that is not taken along closes the literal, if
the line does not end before.  A scanner that stands at a quote reads exactly these characters, and
reports the literal if it is not closed or a backslash takes along what may not follow it.
-/

namespace Cmm

namespace Quotation

/-! ## Where a literal ends -/

/-- Whether the character at an index is taken along by a backslash in front of it.  A backslash
that is taken along takes nothing, and no line feed is taken along. -/
def isTaken (text : List Char) : Nat → Bool
  | 0 => false
  | i + 1 => text[i]? = some '\\' && !isTaken text i && text[i + 1]? ≠ some '\n'

def isEscaping (text : List Char) (i : Nat) : Bool := text[i]? = some '\\' && !isTaken text i

/-- Whether a literal can go no further than an index: to a quote that is not taken along, or to the
end of the line or of the text. -/
def isStop (text : List Char) (i : Nat) : Bool :=
  text[i]? = none || text[i]? = some '\n' || text[i]? = some '"' && !isTaken text i

/-- The number of characters of a literal between its opening quote, behind which the text goes on,
and the place where it ends. -/
structure Extent (text : List Char) (n : Nat) : Prop where
  stop : isStop text n = true
  first : ∀ i < n, isStop text i = false

theorem Extent.unique {text : List Char} {m n : Nat} (hm : Extent text m) (hn : Extent text n) :
    m = n := by
  rcases Nat.lt_trichotomy m n with h | h | h
  · exact absurd hm.stop (by simp [hn.first m h])
  · exact h
  · exact absurd hn.stop (by simp [hm.first n h])

theorem Extent.le_length {text : List Char} {n : Nat} (h : Extent text n) : n ≤ text.length := by
  refine Nat.le_of_not_lt fun hlt => ?_
  have hfirst := h.first _ hlt
  rw [isStop, List.getElem?_eq_none (Nat.le_refl _)] at hfirst
  cases hfirst

theorem Extent.lineFeed_notMem {text : List Char} {n : Nat} (h : Extent text n) :
    '\n' ∉ text.take n := by
  intro hmem
  obtain ⟨i, hi, hchar⟩ := List.mem_take_iff_getElem.1 hmem
  obtain ⟨hn, htext⟩ := Nat.lt_min.1 hi
  have hfirst := h.first i hn
  rw [isStop, List.getElem?_eq_getElem htext, hchar] at hfirst
  cases hfirst

theorem Extent.eq_lineFeed {text : List Char} {n : Nat} (h : Extent text n)
    (hopen : text[n]? ≠ some '"') : ∀ c ∈ text[n]?, c = '\n' := by
  intro c hc
  have hstop := h.stop
  rw [Option.mem_def] at hc
  have hquote : c ≠ '"' := fun heq => hopen (heq ▸ hc)
  simpa [isStop, hc, hquote] using hstop

def escapes : List Char := ['n', 't', '\'', '"', '\\']

def AllAllowed (text : List Char) (n : Nat) : Prop :=
  ∀ i < n, isEscaping text i = true → ∃ c ∈ escapes, text[i + 1]? = some c

def HasBad (text : List Char) (n : Nat) : Prop :=
  ∃ i < n, isEscaping text i = true ∧ ∃ c, text[i + 1]? = some c ∧ c ≠ '\n' ∧ c ∉ escapes

/-! ## Behind a plain character and behind an escape -/

section

variable {c : Char} (text : List Char) (i : Nat)

theorem isTaken_plain (hback : c ≠ '\\') : isTaken (c :: text) (i + 1) = isTaken text i := by
  induction i with
  | zero => simp [isTaken, hback]
  | succ i ih =>
      change (_ && !isTaken (c :: text) (i + 1) && _) = _
      rw [ih]
      rfl

theorem isTaken_escape (hfeed : c ≠ '\n') :
    isTaken ('\\' :: c :: text) (i + 2) = isTaken text i := by
  induction i with
  | zero => simp [isTaken, hfeed]
  | succ i ih =>
      change (_ && !isTaken ('\\' :: c :: text) (i + 2) && _) = _
      rw [ih]
      rfl

theorem isTaken_escaped (hfeed : c ≠ '\n') : isTaken ('\\' :: c :: text) 1 = true := by
  simp [isTaken, hfeed]

theorem isEscaping_plain (hback : c ≠ '\\') :
    isEscaping (c :: text) (i + 1) = isEscaping text i := by
  rw [isEscaping, isTaken_plain _ _ hback]
  rfl

theorem isEscaping_escape (hfeed : c ≠ '\n') :
    isEscaping ('\\' :: c :: text) (i + 2) = isEscaping text i := by
  rw [isEscaping, isTaken_escape _ _ hfeed]
  rfl

theorem isEscaping_escaped (hfeed : c ≠ '\n') : isEscaping ('\\' :: c :: text) 1 = false := by
  simp [isEscaping, isTaken_escaped _ hfeed]

theorem isStop_plain (hback : c ≠ '\\') : isStop (c :: text) (i + 1) = isStop text i := by
  rw [isStop, isTaken_plain _ _ hback]
  rfl

theorem isStop_escape (hfeed : c ≠ '\n') :
    isStop ('\\' :: c :: text) (i + 2) = isStop text i := by
  rw [isStop, isTaken_escape _ _ hfeed]
  rfl

end

end Quotation

namespace StringBody

open Quotation

variable {body : List Char} {bad : Bool}

theorem isTaken_append (h : StringBody body bad) (text : List Char) (i : Nat) :
    isTaken (body ++ text) (body.length + i) = isTaken text i := by
  induction h with
  | nil => rw [List.nil_append, List.length_nil, Nat.zero_add]
  | @plain c rest bad hquote hback hfeed _ ih =>
      rw [List.length_cons, Nat.add_right_comm, List.cons_append, isTaken_plain _ _ hback, ih]
  | @escape c rest bad hfeed _ ih =>
      rw [show ('\\' :: c :: rest).length + i = rest.length + i + 2 from Nat.add_right_comm _ 2 i,
        List.cons_append, List.cons_append, isTaken_escape _ _ hfeed, ih]

theorem isStop_append (h : StringBody body bad) (text : List Char) :
    ∀ i < body.length, isStop (body ++ text) i = false := by
  induction h with
  | nil => exact fun _ hi => absurd hi (Nat.not_lt_zero _)
  | @plain c rest bad hquote hback hfeed _ ih =>
      rw [List.length_cons, Nat.forall_lt_succ_left]
      refine ⟨by simp [isStop, hquote, hfeed], fun i hi => ?_⟩
      rw [List.cons_append, isStop_plain _ _ hback, ih i hi]
  | @escape c rest bad hfeed _ ih =>
      rw [List.length_cons, List.length_cons, Nat.forall_lt_succ_left, Nat.forall_lt_succ_left]
      refine ⟨rfl, by simp [isStop, hfeed, isTaken_escaped], fun i hi => ?_⟩
      rw [List.cons_append, List.cons_append, isStop_escape _ _ hfeed, ih i hi]

theorem exists_escaped (h : StringBody body bad) (text : List Char) :
    ∀ i < body.length, isEscaping (body ++ text) i = true →
      ∃ c, (body ++ text)[i + 1]? = some c ∧ c ≠ '\n' := by
  induction h with
  | nil => exact fun _ hi => absurd hi (Nat.not_lt_zero _)
  | @plain c rest bad hquote hback hfeed _ ih =>
      rw [List.length_cons, Nat.forall_lt_succ_left]
      refine ⟨by simp [isEscaping, hback], fun i hi => ?_⟩
      rw [List.cons_append, isEscaping_plain _ _ hback]
      exact ih i hi
  | @escape c rest bad hfeed _ ih =>
      rw [List.length_cons, List.length_cons, Nat.forall_lt_succ_left, Nat.forall_lt_succ_left]
      refine ⟨fun _ => ⟨c, rfl, hfeed⟩, by simp [isEscaping_escaped _ hfeed], fun i hi => ?_⟩
      rw [List.cons_append, List.cons_append, isEscaping_escape _ _ hfeed]
      exact ih i hi

theorem eq_true_iff (h : StringBody body bad) (text : List Char) :
    bad = true ↔ HasBad (body ++ text) body.length := by
  induction h with
  | nil => simp [HasBad]
  | @plain c rest bad hquote hback hfeed _ ih =>
      rw [ih, HasBad, HasBad, List.length_cons, Nat.exists_lt_succ_left]
      simp [isEscaping_plain _ _ hback, show isEscaping (c :: (rest ++ text)) 0 = false by
        simp [isEscaping, hback]]
  | @escape c rest bad hfeed _ ih =>
      have hchar : (!isEscape c) = true ↔ c ∉ escapes := by simp [isEscape, escapes]
      rw [Bool.or_eq_true, ih, hchar, HasBad, HasBad, List.length_cons, List.length_cons,
        Nat.exists_lt_succ_left, Nat.exists_lt_succ_left]
      simp [isEscaping_escape _ _ hfeed, isEscaping_escaped _ hfeed, hfeed,
        show isEscaping ('\\' :: c :: (rest ++ text)) 0 = true from rfl]

end StringBody

namespace Quotation

/-! ## What is taken -/

theorem allAllowed_iff {text : List Char} {n : Nat} (h : ∀ i < n, isEscaping text i = true →
    ∃ c, text[i + 1]? = some c ∧ c ≠ '\n') : AllAllowed text n ↔ ¬HasBad text n := by
  constructor
  · rintro hall ⟨i, hi, hescape, c, hc, -, hbad⟩
    obtain ⟨d, hd, hd'⟩ := hall i hi hescape
    rw [hc] at hd'
    exact hbad (Option.some.inj hd' ▸ hd)
  · intro hbad i hi hescape
    obtain ⟨c, hc, hfeed⟩ := h i hi hescape
    exact ⟨c, Classical.byContradiction fun hc' => hbad ⟨i, hi, hescape, c, hc, hfeed, hc'⟩, hc⟩

/-- A scan of a text tells how far a literal goes, whether it is closed, and whether it has bad
escapes. -/
structure Tells (scan : StringScan) (text : List Char) (n : Nat) : Prop where
  extent : Extent text n
  closed_iff : scan.closed = true ↔ text[n]? = some '"'
  taken_eq : scan.taken = text.take (if scan.closed then n + 1 else n)
  badEscape_iff : scan.badEscape = true ↔ HasBad text n
  allAllowed_iff : scan.closed = true → (AllAllowed text n ↔ ¬HasBad text n)

theorem tells_closed {body : List Char} {bad : Bool} (h : StringBody body bad) (rest : List Char) :
    Tells (scanString (body ++ '"' :: rest)) (body ++ '"' :: rest) body.length := by
  have htaken : isTaken (body ++ '"' :: rest) body.length = false :=
    h.isTaken_append ('"' :: rest) 0
  rw [h.scanString_closed]
  exact {
    extent := ⟨by simp [isStop, htaken], h.isStop_append _⟩
    closed_iff := by simp
    taken_eq := by simp [List.take_append, List.take_of_length_le]
    badEscape_iff := h.eq_true_iff _
    allAllowed_iff := fun _ => Quotation.allAllowed_iff (h.exists_escaped _) }

theorem hasBad_backslash (body : List Char) {rest : List Char} (hrest : AtLineEnd rest) :
    HasBad (body ++ '\\' :: rest) (body.length + 1) ↔
      HasBad (body ++ '\\' :: rest) body.length := by
  have hnext : ∀ c, (body ++ '\\' :: rest)[body.length + 1]? = some c → c = '\n' := by
    intro c hc
    rw [List.getElem?_append_right (Nat.le_add_right _ _), Nat.add_sub_cancel_left] at hc
    exact hrest c (by simpa [List.head?_eq_getElem?] using hc)
  rw [HasBad, Nat.exists_lt_succ_right, ← HasBad]
  refine or_iff_left ?_
  rintro ⟨-, c, hc, hfeed, -⟩
  exact hfeed (hnext c hc)

theorem tells_open {body tail rest : List Char} {bad : Bool} (h : StringBody body bad)
    (htail : tail = [] ∨ tail = ['\\']) (hrest : AtLineEnd rest) :
    Tells (scanString (body ++ (tail ++ rest))) (body ++ (tail ++ rest))
      (body ++ tail).length := by
  have hend : (body ++ (tail ++ rest))[(body ++ tail).length]? = rest.head? := by
    rw [← List.append_assoc, List.getElem?_append_right (Nat.le_refl _), Nat.sub_self,
      List.head?_eq_getElem?]
  have hstop : isStop (body ++ (tail ++ rest)) (body ++ tail).length = true ∧
      rest.head? ≠ some '"' := by
    rw [isStop, hend]
    cases rest with
    | nil => simp
    | cons c rest =>
        obtain rfl := hrest c rfl
        simp
  rw [h.scanString_open htail hrest]
  refine ⟨⟨hstop.1, ?_⟩, ?_, ?_, ?_, nofun⟩
  · rcases htail with rfl | rfl
    · simpa using h.isStop_append rest
    · rw [List.length_append, List.length_singleton, Nat.forall_lt_succ_right]
      exact ⟨h.isStop_append _, by simp [isStop]⟩
  · rw [hend]
    exact iff_of_false nofun hstop.2
  · rw [if_neg Bool.false_ne_true, ← List.append_assoc, List.take_left]
  · rcases htail with rfl | rfl
    · simpa using h.eq_true_iff rest
    · rw [List.length_append, List.length_singleton, List.singleton_append,
        hasBad_backslash body hrest]
      exact h.eq_true_iff _

theorem Tells.length_taken {scan : StringScan} {text : List Char} {n : Nat}
    (h : Tells scan text n) : scan.taken.length = if scan.closed then n + 1 else n := by
  rw [h.taken_eq, List.length_take]
  split
  · rename_i hclosed
    obtain ⟨hlt, -⟩ := List.getElem?_eq_some_iff.1 (h.closed_iff.1 hclosed)
    exact Nat.min_eq_left hlt
  · exact Nat.min_eq_left h.extent.le_length

theorem Tells.lineFeed_notMem {scan : StringScan} {text : List Char} {n : Nat}
    (h : Tells scan text n) : '\n' ∉ scan.taken := by
  rw [h.taken_eq]
  split
  · rename_i hclosed
    rw [List.take_add_one, h.closed_iff.1 hclosed, List.mem_append]
    exact not_or.2 ⟨h.extent.lineFeed_notMem, by simp⟩
  · exact h.extent.lineFeed_notMem

theorem exists_tells (text : List Char) : ∃ n, Tells (scanString text) text n := by
  obtain ⟨body, bad, h, ⟨rest, rfl⟩ | ⟨tail, rest, htail, hrest, rfl⟩⟩ :=
    StringBody.exists_of_text text
  · exact ⟨_, tells_closed h rest⟩
  · exact ⟨_, tells_open h htail hrest⟩

end Quotation

/-! ## What is read -/

theorem StringScan.cause?_eq_none_iff {scan : StringScan} :
    scan.cause? = none ↔ scan.closed = true ∧ scan.badEscape = false := by
  unfold cause?
  cases scan.closed <;> cases scan.badEscape <;> simp

theorem StringScan.cause?_says {scan : StringScan} {cause : LexicalCause}
    (h : scan.cause? = some cause) :
    ("Unterminated".toList <:+: cause.message.toList ↔ ¬scan.closed = true) ∧
    ("bad escaped character".toList <:+: cause.message.toList ↔ scan.badEscape = true) := by
  unfold cause? at h
  cases hclosed : scan.closed <;> cases hbad : scan.badEscape <;> rw [hclosed, hbad] at h <;>
    cases h <;> decide +kernel

namespace Scanner

open Quotation

theorem readString_of_good {s : Scanner} {text : List Char} (hrest : s.rest = '"' :: text)
    (h : (scanString text).cause? = none) :
    s.readString = (some (String.ofList ('"' :: (scanString text).taken)),
      s.skip (1 + (scanString text).taken.length)) := by
  simp [readString, hrest, h]

theorem readString_of_cause {s : Scanner} {text : List Char} (hrest : s.rest = '"' :: text)
    {cause : LexicalCause} (h : (scanString text).cause? = some cause) :
    s.readString = (none,
      (s.skip (1 + (scanString text).taken.length)).report cause s.position) := by
  simp [readString, hrest, h]

/-- A scanner at a quote in a text: its literal goes on behind the quote as far as its extent, which
there is exactly one of.  It is given, and nothing is reported, if and only if it is closed and
every backslash takes along what it may; otherwise one error is reported at the quote, which says if
the literal is not closed and if a backslash takes along what it may not.  The scanner goes on
behind the closing quote, or to the end of the line. -/
theorem readString_exact (source : String) (i : Nat) (hquote : source.toList[i]? = some '"')
    (errors : List LexicalError) (warnings : List Warning) :
    let s := { (ofText source.toList).skip i with errors := errors, warnings := warnings }
    let text := source.toList.drop (i + 1)
    ∃ n, (∀ m, Extent text m ↔ m = n) ∧
      let closed := text[n]? = some '"'
      let length := if closed then n + 2 else n + 1
      (s.readString.1 = some (String.ofList ((source.toList.drop i).take (n + 2))) ∧
        s.readString.2.errors = errors ↔ closed ∧ AllAllowed text n) ∧
      (¬(closed ∧ AllAllowed text n) → s.readString.1 = none ∧ ∃ e : LexicalError,
        s.readString.2.errors = errors ++ [e] ∧
        e.position = .behind (source.toList.take i) ∧
        ("Unterminated".toList <:+: e.message.toList ↔ ¬closed) ∧
        ("bad escaped character".toList <:+: e.message.toList ↔ HasBad text n)) ∧
      s.readString.2 = { s.skip length with errors := s.readString.2.errors } ∧
      '\n' ∉ (source.toList.drop i).take length ∧
      (¬closed → ∀ c ∈ (s.skip length).current?, c = '\n') := by
  intro s text
  have hrest : s.rest = '"' :: text := by
    obtain ⟨hi, hchar⟩ := List.getElem?_eq_some_iff.1 hquote
    rw [← hchar]
    exact List.drop_eq_getElem_cons hi
  have hposition : s.position = .behind (source.toList.take i) := by
    change Position.start.after (source.toList.take i) = _
    rw [Position.start_eq_behind, Position.after_behind, List.nil_append]
  obtain ⟨n, h⟩ := exists_tells text
  refine ⟨n, fun m => ⟨fun hm => hm.unique h.extent, fun hm => hm ▸ h.extent⟩, ?_⟩
  intro closed length
  have hclosed : (scanString text).closed = true ↔ closed := h.closed_iff
  have hlength : 1 + (scanString text).taken.length = length := by
    rw [h.length_taken, Nat.add_comm]
    by_cases hc : closed
    · rw [if_pos (hclosed.2 hc), show length = n + 2 from if_pos hc]
    · rw [if_neg fun h => hc (hclosed.1 h), show length = n + 1 from if_neg hc]
  have hslice : (source.toList.drop i).take length = '"' :: (scanString text).taken := by
    change s.rest.take length = _
    rw [hrest, h.taken_eq, ← hlength, h.length_taken, Nat.add_comm, List.take_succ_cons]
  have hline : '\n' ∉ (source.toList.drop i).take length := by
    rw [hslice, List.mem_cons]
    exact not_or.2 ⟨nofun, h.lineFeed_notMem⟩
  have hend : ¬closed → ∀ c ∈ (s.skip length).current?, c = '\n' := by
    intro hopen
    have hcurrent : (s.skip length).current? = text[n]? := by
      change (s.rest.drop length).head? = _
      rw [hrest, show length = n + 1 from if_neg hopen, List.drop_succ_cons, List.head?_drop]
    rw [hcurrent]
    exact h.extent.eq_lineFeed hopen
  have hgood : (scanString text).cause? = none ↔ closed ∧ AllAllowed text n := by
    rw [StringScan.cause?_eq_none_iff, ← hclosed]
    refine and_congr_right fun hclosed => ?_
    rw [h.allAllowed_iff hclosed, ← h.badEscape_iff, Bool.not_eq_true]
  cases hcause : (scanString text).cause? with
  | none =>
      have hread := hgood.1 hcause
      have hwhole : (source.toList.drop i).take (n + 2) = '"' :: (scanString text).taken := by
        rw [← hslice, show length = n + 2 from if_pos hread.1]
      rw [readString_of_good hrest hcause, hlength, hwhole]
      exact ⟨iff_of_true ⟨rfl, rfl⟩ hread, fun hnot => absurd hread hnot, rfl, hline, hend⟩
  | some cause =>
      have hnot : ¬(closed ∧ AllAllowed text n) := fun hread => by
        rw [hgood.2 hread] at hcause
        cases hcause
      rw [readString_of_cause hrest hcause, hlength]
      refine ⟨iff_of_false nofun hnot, fun _ => ⟨rfl, ⟨cause, s.position⟩, rfl, hposition, ?_⟩, rfl,
        hline, hend⟩
      rw [← hclosed, ← h.badEscape_iff]
      exact StringScan.cause?_says hcause

theorem readString_exact_of_taken_quote :
    let source := "x\"a\\q\\\""
    let s := (ofText source.toList).skip 1
    source.toList[1]? = some '"' ∧ s.readString.1 = none ∧ ∃ e : LexicalError,
      s.readString.2.errors = [e] ∧ e.position = ⟨1, 2⟩ ∧
      "Unterminated".toList <:+: e.message.toList ∧
      "bad escaped character".toList <:+: e.message.toList := by
  intro source s
  have hquote : source.toList[1]? = some '"' := by decide
  obtain ⟨n, hextent, -, hbad, -⟩ := readString_exact source 1 hquote [] []
  obtain rfl : 5 = n := (hextent 5).1 ⟨by decide, by decide⟩
  have hopen : (source.toList.drop 2)[5]? ≠ some '"' := by decide
  obtain ⟨hnone, e, herrors, hposition, hopened, hbad⟩ := hbad fun h => hopen h.1
  refine ⟨hquote, hnone, e, herrors, hposition.trans (by decide), hopened.2 hopen, hbad.2 ?_⟩
  exact ⟨1, by decide, by decide, 'q', by decide, by decide, by decide⟩

end Scanner

end Cmm
