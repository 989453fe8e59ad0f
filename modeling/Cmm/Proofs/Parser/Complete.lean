import Cmm.Proofs.Expr.Written
import Cmm.Proofs.Parser.Outcome

/-!
# Reading what is spelled

A parser gives what is spelled at a cursor if it stops behind it with a value that is asked for.  It
may also run out of steps; that it does not is shown elsewhere.
-/

namespace Cmm

/-- What stands between two cursors is spelled by some lexemes. -/
def Cursor.Spells (c : Cursor) (lexemes : List Lexeme) (d : Cursor) : Prop :=
  ∃ u, c.Reads u d ∧ u.map Token.plain = lexemes

namespace Cursor.Spells

variable {c d : Cursor} {l : Lexeme} {ls ls' : List Lexeme}

theorem nil (h : c.Spells [] d) : c = d := by
  obtain ⟨u, hu, hls⟩ := h
  obtain rfl := List.map_eq_nil_iff.1 hls
  exact (Reads.refl c).unique hu

theorem append (h : c.Spells (ls ++ ls') d) : ∃ e, c.Spells ls e ∧ e.Spells ls' d := by
  obtain ⟨u, hu, hls⟩ := h
  obtain ⟨v, w, rfl, hv, hw⟩ := List.map_eq_append_iff.1 hls
  obtain ⟨e, hc, hd⟩ := hu.split
  exact ⟨e, ⟨v, hc, hv⟩, ⟨w, hd, hw⟩⟩

theorem cons (h : c.Spells (l :: ls) d) :
    c.current.plain = l ∧ c.current.kind ≠ .endOfInput ∧ c.advance.Spells ls d := by
  obtain ⟨u, hu, hls⟩ := h
  obtain ⟨t, v, rfl, ht, hv⟩ := List.map_eq_cons_iff.1 hls
  obtain ⟨rfl, hk, hd⟩ := hu.head
  exact ⟨ht, hk, v, hd, hv⟩

theorem kind (h : c.Spells (l :: ls) d) : c.current.kind = l.kind := by
  rw [← Token.kind_plain, h.cons.1]

theorem kindAhead?_length (h : c.Spells ls d) : c.kindAhead? ls.length = some d.current.kind := by
  obtain ⟨u, hu, hls⟩ := h
  rw [← hls, List.length_map, hu.kindAhead?_length]

theorem kindAhead?_one (h : c.Spells (l :: ls) d) :
    c.kindAhead? 1 = some c.advance.current.kind := by
  have hsplit : c.Spells ([l] ++ ls) d := h
  obtain ⟨e, he, -⟩ := hsplit.append
  obtain ⟨-, -, hnil⟩ := he.cons
  rw [hnil.nil]
  exact he.kindAhead?_length

theorem kindAhead?_two {l' : Lexeme} (h : c.Spells (l :: l' :: ls) d) :
    c.kindAhead? 2 = some c.advance.advance.current.kind := by
  have hsplit : c.Spells ([l, l'] ++ ls) d := h
  obtain ⟨e, he, -⟩ := hsplit.append
  obtain ⟨-, -, hone⟩ := he.cons
  obtain ⟨-, -, hnil⟩ := hone.cons
  rw [hnil.nil]
  exact he.kindAhead?_length

theorem depth (h : c.Spells ls d) : d.depth = c.depth :=
  h.choose_spec.1.depth

theorem deeper (h : c.Spells ls d) : c.deeper.Spells ls d.deeper :=
  h.imp fun _ hu => ⟨hu.1.deeper, hu.2⟩

end Cursor.Spells

/-- Whether an expression of a height may be built: only those that have parts are checked. -/
def Limits.Admits (limits : Limits) (height : Nat) : Prop :=
  1 < height → (height : Int) ≤ limits.height

theorem Limits.Admits.mono {limits : Limits} {i j : Nat} (h : limits.Admits j) (hij : i ≤ j) :
    limits.Admits i := by
  intro hi
  have := h (by omega)
  omega

namespace Parser

/-- The parser stops at `d` with a value as `P` says, or it runs out of steps. -/
def Gives {α : Type} (c : Cursor) (p : Parser α) (d : Cursor) (P : α → Prop) : Prop :=
  p.Ends c (fun a d' => d' = d ∧ P a) fun e _ => e.cause = .exhausted

namespace Gives

variable {α β : Type} {c d e : Cursor} {p : Parser α} {f : α → Parser β} {P : α → Prop}
  {R : β → Prop} {k : Kind} {limits : Limits}

theorem imp {P' : α → Prop} (h : Gives c p d P) (hP : ∀ a, P a → P' a) : Gives c p d P' :=
  Ends.imp h (fun _ _ ha => ⟨ha.1, hP _ ha.2⟩) fun _ _ he => he

theorem pure {a : α} (h : P a) : Gives c (pure a) c P := ⟨rfl, h⟩

theorem exhausted : Gives c (exhausted : Parser α) d P := rfl

theorem bind (hp : Gives c p d P) (hf : ∀ a, P a → Gives d (f a) e R) :
    Gives c (p >>= f) e R := by
  refine ends_bind.2 (Ends.imp hp ?_ fun _ _ he => he)
  rintro a d' ⟨rfl, ha⟩
  exact hf a ha

theorem map {g : α → β} (hp : Gives c p d fun a => R (g a)) : Gives c (g <$> p) d R :=
  ends_map.2 hp

theorem step {a : α} (hp : p c = .ok a d) (hf : Gives d (f a) e R) : Gives c (p >>= f) e R :=
  ends_bind.2 (ends_of_ok hp hf)

theorem current {f : Token → Parser β} (h : Gives c (f c.current) e R) :
    Gives c (current >>= f) e R :=
  h

theorem get {f : Cursor → Parser β} (h : Gives c (f c) e R) : Gives c (get >>= f) e R :=
  h

theorem at? {f : Bool → Parser β} (h : Gives c (f (c.current.kind = k)) e R) :
    Gives c (at? k >>= f) e R :=
  h

theorem advance {f : Unit → Parser β} (h : Gives c.advance (f ()) e R) :
    Gives c (advance >>= f) e R :=
  h

theorem expect {f : Token → Parser β} {message : String} (hk : c.current.kind = k)
    (h : Gives c.advance (f c.current) e R) : Gives c (expect k message >>= f) e R :=
  step (expect_of_eq hk message) h

theorem accept {f : Bool → Parser β} (hk : c.current.kind = k)
    (h : Gives c.advance (f true) e R) : Gives c (accept k >>= f) e R :=
  step (accept_of_eq hk) h

theorem refuse {f : Bool → Parser β} (hk : c.current.kind ≠ k) (h : Gives c (f false) e R) :
    Gives c (Parser.accept k >>= f) e R :=
  step (accept_of_ne hk) h

theorem checkHeight {f : Unit → Parser β} {height : Nat} {t : Token} (hone : 1 < height)
    (hheight : limits.Admits height) (h : Gives c (f ()) e R) :
    Gives c (checkHeight limits height t >>= f) e R :=
  step (checkHeight_of_not_lt (by have := hheight hone; omega) t) h

theorem nested (hdepth : (c.depth + 1 : Nat) ≤ limits.depth) (h : Gives c.deeper p d.deeper P) :
    Gives c (nested limits p) d P := by
  unfold Gives Ends at h ⊢
  rw [nested_of_not_lt (by omega)]
  split at h
  · obtain ⟨rfl, ha⟩ := h
    exact ⟨Cursor.leave_deeper d, ha⟩
  · exact h

theorem ite_bind {q : Parser α} {b : Bool} (h : Gives c ((if b then p else q) >>= f) e R) :
    Gives c (if b then p >>= f else q >>= f) e R := by
  cases b <;> exact h

theorem measured {p : Nat → Parser α} (h : ∀ n, Gives c (p n) d P) : Gives c (measured p) d P :=
  h _

theorem ok {Q : α → List Token → Cursor → Prop} {E : SyntaxError → List Token → Cursor → Cursor → Prop}
    (h : Gives c p d P) (hruns : Runs c p Q E)
    (hE : ∀ err u d d', E err u d d' → err.cause ≠ .exhausted) (hc : c.Closed) :
    ∃ a, p c = .ok a d ∧ P a := by
  cases hrun : p c with
  | ok a d' =>
      obtain ⟨rfl, ha⟩ := Ends.of_ok h hrun
      exact ⟨a, rfl, ha⟩
  | error err d' =>
      obtain ⟨u, d'', -, herr⟩ := (hruns hc).of_error hrun
      exact absurd (Ends.of_error h hrun) (hE _ _ _ _ herr)

end Gives

end Parser

end Cmm
