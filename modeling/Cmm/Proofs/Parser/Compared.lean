import Cmm.Proofs.Parser.Truncated
import Mathlib.Data.List.Forall2

/-!
# Two runs side by side

Two lists of tokens begin with paired tokens, which are of the same kinds; what stands behind these
is not compared.  Run on both lists, a parser does the same until the first run has gone past the
paired tokens, or one of the runs is out of steps.
-/

namespace Cmm

class Built (α : Type) where
  /-- Two values differ only in the tokens that they are built from, and these are paired. -/
  Alike (P : Token → Token → Prop) : α → α → Prop
  alike_refl {P : Token → Token → Prop} (hP : ∀ t, P t t) (a : α) : Alike P a a

instance : Built Token := ⟨fun P t u => P t u, fun hP t => hP t⟩

instance : Built Unit := ⟨fun _ _ _ => True, fun _ _ => trivial⟩

instance : Built Bool := ⟨fun _ b b' => b = b', fun _ _ => rfl⟩

instance {α : Type} [Built α] : Built (List α) :=
  ⟨fun P => List.Forall₂ (Built.Alike P), fun hP _ =>
    List.forall₂_same.2 fun a _ => Built.alike_refl hP a⟩

structure SyntaxError.Alike (P : Token → Token → Prop) (e e' : SyntaxError) : Prop where
  cause : e.cause = e'.cause
  token : Option.Rel P e.token e'.token

/-- Paired tokens at the beginning of two lists, and what the lists hold behind these. -/
structure Overlap where
  Pairs : Token → Token → Prop
  kind_eq : ∀ {t u : Token}, Pairs t u → t.kind = u.kind
  rest : List Token
  other : List Token
  /-- Where the second list ends with the paired tokens, the first one does. -/
  rest_eq_nil : other = [] → rest = []
  refl : rest ≠ [] → ∀ t, Pairs t t

namespace Overlap

def whole (P : Token → Token → Prop) (hP : ∀ {t u : Token}, P t u → t.kind = u.kind) : Overlap where
  Pairs := P
  kind_eq := hP
  rest := []
  other := []
  rest_eq_nil := id
  refl h := absurd rfl h

def common (rest other : List Token) (h : other = [] → rest = []) : Overlap where
  Pairs := (· = ·)
  kind_eq := congrArg Token.kind
  rest := rest
  other := other
  rest_eq_nil := h
  refl _ _ := rfl

variable {S : Overlap} {gap : Nat} {c d : Cursor}

/-- Two cursors at paired tokens, equally deep. -/
structure Inside (S : Overlap) (c d : Cursor) : Prop where
  closed : c.Closed
  depth : c.depth = d.depth
  current : S.Pairs c.current d.current
  after : ∃ u v, List.Forall₂ S.Pairs u v ∧ c.after = u ++ S.rest ∧ d.after = v ++ S.other

/-- Two cursors at paired tokens or right behind them, equally deep. -/
structure Beside (S : Overlap) (c d : Cursor) : Prop where
  closed : c.Closed
  depth : c.depth = d.depth
  ahead : ∃ u v, List.Forall₂ S.Pairs u v ∧ c.ahead = u ++ S.rest ∧ d.ahead = v ++ S.other

/-- The first cursor is a number of tokens, or more, past the paired ones. -/
structure Past (S : Overlap) (gap : Nat) (c : Cursor) : Prop where
  closed : c.Closed
  length : c.ahead.length + gap ≤ S.rest.length

namespace Past

theorem rest_ne_nil (h : S.Past gap c) : S.rest ≠ [] := by
  intro hrest
  have hlength := h.length
  rw [hrest, c.length_ahead] at hlength
  simp at hlength

theorem pairs (h : S.Past gap c) (t : Token) : S.Pairs t t := S.refl h.rest_ne_nil t

theorem mono {gap' : Nat} (h : S.Past gap c) (hgap : gap' ≤ gap) : S.Past gap' c :=
  ⟨h.closed, by have := h.length; omega⟩

theorem deeper (h : S.Past gap c) : S.Past gap c.deeper := ⟨h.closed, h.length⟩

theorem leave (h : S.Past gap c) : S.Past gap (Parser.leave c) := ⟨h.closed, h.length⟩

theorem advance (h : S.Past 0 c) : S.Past 0 c.advance := by
  cases hafter : c.after with
  | nil =>
      have hadvance : c.advance = c := by simp [Cursor.advance, hafter]
      rwa [hadvance]
  | cons t rest =>
      have hadvance : c.advance = ⟨c.current :: c.before, t, rest, c.depth⟩ := by
        simp [Cursor.advance, hafter]
      have hclosed := h.closed
      have hlength := h.length
      rw [Cursor.Closed, Cursor.kinds_eq_cons, hafter] at hclosed
      rw [Cursor.length_ahead, hafter] at hlength
      rw [hadvance]
      refine ⟨by simpa [Cursor.Closed, Cursor.kinds_eq_cons] using hclosed, ?_⟩
      simp only [Cursor.length_ahead, List.length_cons] at hlength ⊢
      omega

theorem advance_of_ne (h : S.Past 0 c) (hk : c.current.kind ≠ .endOfInput) :
    S.Past 1 c.advance := by
  refine ⟨h.advance.closed, ?_⟩
  have hlength := h.length
  have hafter := Cursor.after_ne_nil h.closed hk
  have hahead := congrArg List.length (Cursor.ahead_advance hafter)
  rw [Cursor.length_ahead] at hlength
  omega

end Past

namespace Inside

theorem deeper (h : S.Inside c d) : S.Inside c.deeper d.deeper :=
  ⟨h.closed, congrArg (· + 1) h.depth, h.current, h.after⟩

theorem kind (h : S.Inside c d) : c.current.kind = d.current.kind := S.kind_eq h.current

theorem beside (h : S.Inside c d) : S.Beside c d := by
  obtain ⟨u, v, huv, hc, hd⟩ := h.after
  refine ⟨h.closed, h.depth, c.current :: u, d.current :: v, .cons h.current huv, ?_, ?_⟩
  · rw [Cursor.ahead, hc, List.cons_append]
  · rw [Cursor.ahead, hd, List.cons_append]

theorem after_ne_nil (h : S.Inside c d) (hafter : c.after ≠ []) : d.after ≠ [] := by
  obtain ⟨u, v, huv, hc, hd⟩ := h.after
  intro hd'
  obtain ⟨rfl, hother⟩ := List.append_eq_nil_iff.1 (hd.symm.trans hd')
  obtain rfl : u = [] := by cases huv; rfl
  exact hafter (hc.trans (S.rest_eq_nil hother))

theorem advance (h : S.Inside c d) (hk : c.current.kind ≠ .endOfInput) :
    S.Beside c.advance d.advance := by
  have hafter := Cursor.after_ne_nil h.closed hk
  have hclosed := (Cursor.reads_advance h.closed hk).closed h.closed
  have hdepth : c.advance.depth = d.advance.depth := by
    rw [Cursor.depth_advance, Cursor.depth_advance, h.depth]
  obtain ⟨u, v, huv, hc, hd⟩ := h.after
  refine ⟨hclosed, hdepth, u, v, huv, ?_, ?_⟩
  · rw [Cursor.ahead_advance hafter, hc]
  · rw [Cursor.ahead_advance (h.after_ne_nil hafter), hd]

theorem kindAhead? (h : S.Inside c d) (i : Nat) :
    c.kindAhead? i = d.kindAhead? i ∨ c.after.length < i + S.rest.length := by
  obtain ⟨u, v, huv, hc, hd⟩ := h.after
  by_cases hi : i < u.length + 1
  · left
    have hpaired := (List.Forall₂.cons h.current huv).get (i := i) (by simpa using hi)
      (by simpa [huv.length_eq] using hi)
    change (c.current :: c.after)[i]?.map Token.kind = (d.current :: d.after)[i]?.map Token.kind
    rw [hc, hd, ← List.cons_append, ← List.cons_append,
      List.getElem?_append_left (by simpa using hi),
      List.getElem?_append_left (by simpa [← huv.length_eq] using hi)]
    have hi' : i < v.length + 1 := by rwa [← huv.length_eq]
    simpa [hi, hi'] using S.kind_eq hpaired
  · right
    rw [hc, List.length_append]
    omega

end Inside

namespace Beside

theorem leave (h : S.Beside c d) : S.Beside (Parser.leave c) (Parser.leave d) :=
  ⟨h.closed, congrArg (· - 1) h.depth, h.ahead⟩

theorem cases (h : S.Beside c d) : S.Past 0 c ∨ S.Inside c d := by
  obtain ⟨u, v, huv, hc, hd⟩ := h.ahead
  cases huv with
  | nil =>
      exact .inl ⟨h.closed, by rw [hc]; simp⟩
  | cons htu huv =>
      obtain ⟨hct, hc⟩ := List.cons.inj hc
      obtain ⟨hdt, hd⟩ := List.cons.inj hd
      exact .inr ⟨h.closed, h.depth, hct ▸ hdt ▸ htu, _, _, huv, hc, hd⟩

end Beside

theorem Inside.past_advance (h : S.Inside c d) (hk : c.current.kind ≠ .endOfInput)
    (hlast : c.after.length < 1 + S.rest.length) : S.Past 0 c.advance := by
  have hafter := Cursor.after_ne_nil h.closed hk
  have hlength := congrArg List.length (Cursor.ahead_advance hafter)
  refine ⟨(Cursor.reads_advance h.closed hk).closed h.closed, ?_⟩
  omega

end Overlap

namespace Parser

def Exhausts {α : Type} (p : Parser α) (c : Cursor) : Prop :=
  p.Ends c (fun _ _ => False) fun e _ => e.cause = .exhausted

theorem Exhausts.bind {α β : Type} {p : Parser α} {f : α → Parser β} {c : Cursor}
    (h : Exhausts p c) : Exhausts (p >>= f) c :=
  ends_bind.2 (Ends.of_fails h)

/-- A run that ends past the paired tokens, by a number of tokens if it succeeds, or for want of
steps. -/
abbrev Strays {α : Type} (S : Overlap) (gap : Nat) (c : Cursor) (p : Parser α) : Prop :=
  p.Ends c (fun _ c' => S.Past gap c') fun e c' => S.Past 0 c' ∨ e.cause = .exhausted

theorem Strays.bind {α β : Type} {S : Overlap} {gap k : Nat} {c : Cursor} {p : Parser α}
    {f : α → Parser β} (hp : Strays S k c p)
    (hf : ∀ a c', S.Past 0 c' → Strays S gap c' (f a)) : Strays S gap c (p >>= f) :=
  ends_bind.2 (Ends.imp hp (fun a c' hc' => hf a c' (hc'.mono (Nat.zero_le k))) fun _ _ he => he)

theorem Strays.measured {α : Type} {S : Overlap} {gap : Nat} {c : Cursor} {p : Nat → Parser α}
    (h : ∀ n, Strays S gap c (p n)) : Strays S gap c (measured p) :=
  h _

/-- The run of `p` from `c` is past the paired tokens when it ends, by a number of tokens if it
succeeds, or the run of `q` from `d` ends in the same way, at the same place. -/
structure Agree {α : Type} [Built α] (S : Overlap) (gap : Nat) (c d : Cursor) (p q : Parser α) :
    Prop where
  past : S.Past 0 c → Strays S gap c p
  inside : S.Inside c d → p.Ends c
    (fun a c' => S.Past gap c' ∨ Exhausts q d ∨
      ∃ b d', q d = .ok b d' ∧ Built.Alike S.Pairs a b ∧ S.Beside c' d')
    fun e c' => (S.Past 0 c' ∨ e.cause = .exhausted) ∨ Exhausts q d ∨
      ∃ e' d', q d = .error e' d' ∧ e.Alike S.Pairs e' ∧ S.Beside c' d'

namespace Agree

variable {α β : Type} [Built α] [Built β] {S : Overlap} {gap k : Nat} {c d : Cursor}
  {p q : Parser α} {f g : α → Parser β}

theorem of_beside (h : Agree S gap c d p q) (hcd : S.Beside c d) : p.Ends c
    (fun a c' => S.Past gap c' ∨ Exhausts q d ∨
      ∃ b d', q d = .ok b d' ∧ Built.Alike S.Pairs a b ∧ S.Beside c' d')
    fun e c' => (S.Past 0 c' ∨ e.cause = .exhausted) ∨ Exhausts q d ∨
      ∃ e' d', q d = .error e' d' ∧ e.Alike S.Pairs e' ∧ S.Beside c' d' := by
  rcases hcd.cases with hpast | hinside
  · exact (h.past hpast).imp (fun _ _ h => .inl h) fun _ _ h => .inl h
  · exact h.inside hinside

theorem bind (hp : Agree S k c d p q)
    (hf : ∀ a b c' d', Built.Alike S.Pairs a b → Agree S gap c' d' (f a) (g b)) :
    Agree S gap c d (p >>= f) (q >>= g) where
  past hc := by
    refine ends_bind.2 ((hp.past hc).imp (fun a c' hc' => ?_) fun _ _ he => he)
    exact (hf a a c' c' (Built.alike_refl hc.pairs a)).past (hc'.mono (Nat.zero_le k))
  inside hcd := by
    refine ends_bind.2 ((hp.inside hcd).imp (fun a c' ha => ?_) fun e c' he => ?_)
    · rcases ha with hpast | hex | ⟨b, d', hq, hab, hbeside⟩
      · have hf := hf a a c' c' (Built.alike_refl hpast.pairs a)
        refine (hf.past (hpast.mono (Nat.zero_le k))).imp (fun _ _ h => .inl h) fun _ _ h => .inl h
      · unfold Ends
        split
        · exact .inr (.inl hex.bind)
        · exact .inr (.inl hex.bind)
      · have hrun : (q >>= g) d = g b d' := bind_of_ok hq
        have hf := (hf a b c' d' hab).of_beside hbeside
        simpa only [Exhausts, Ends, hrun] using hf
    · rcases he with hlost | hex | ⟨e', d', hq, hee', hbeside⟩
      · exact .inl hlost
      · exact .inr (.inl hex.bind)
      · exact .inr (.inr ⟨e', d', bind_of_error hq, hee', hbeside⟩)

theorem pure {a b : α} (h : Built.Alike S.Pairs a b) :
    Agree S 0 c d (Pure.pure a) (Pure.pure b) where
  past hc := hc
  inside hcd := .inr (.inr ⟨b, d, rfl, h, hcd.beside⟩)

theorem yield {φ ψ : α → β} (hp : Agree S gap c d p q)
    (h : ∀ a b, Built.Alike S.Pairs a b → Built.Alike S.Pairs (φ a) (ψ b)) :
    Agree S gap c d (p >>= fun a => Pure.pure (φ a)) (q >>= fun b => Pure.pure (ψ b)) where
  past hc := ends_bind.2 (hp.past hc)
  inside hcd := by
    refine ends_bind.2 ((hp.inside hcd).imp (fun a c' ha => ?_) fun e c' he => ?_)
    · rcases ha with hpast | hex | ⟨b, d', hq, hab, hbeside⟩
      · exact .inl hpast
      · exact .inr (.inl hex.bind)
      · exact .inr (.inr ⟨ψ b, d', bind_of_ok hq, h a b hab, hbeside⟩)
    · rcases he with hlost | hex | ⟨e', d', hq, hee', hbeside⟩
      · exact .inl hlost
      · exact .inr (.inl hex.bind)
      · exact .inr (.inr ⟨e', d', bind_of_error hq, hee', hbeside⟩)

theorem fail {message : String} : Agree S gap c d (fail message : Parser α) (fail message) where
  past hc := .inl hc
  inside hcd := .inr (.inr ⟨_, d, rfl, ⟨rfl, .some hcd.current⟩, hcd.beside⟩)

theorem exhausted : Agree S gap c d (exhausted : Parser α) q where
  past _ := .inr rfl
  inside _ := .inl (.inr rfl)

theorem exhausted_right (hp : S.Past 0 c → Strays S gap c p) :
    Agree S gap c d p (Parser.exhausted : Parser α) where
  past := hp
  inside _ := by
    unfold Ends
    split
    · exact .inr (.inl rfl)
    · exact .inr (.inl rfl)

theorem of_steps (n : Nat) {q : Nat → Parser α} (hzero : q 0 = Parser.exhausted)
    (h : ∀ n, Agree S gap c d p (q (n + 1))) : Agree S gap c d p (q n) := by
  cases n with
  | zero => exact hzero ▸ .exhausted_right (h 0).past
  | succ n => exact h n

theorem current {f g : Token → Parser β}
    (h : ∀ u, S.Pairs c.current u → Agree S gap c d (f c.current) (g u)) :
    Agree S gap c d (current >>= f) (current >>= g) where
  past hc := (h c.current (hc.pairs _)).past hc
  inside hcd := (h d.current hcd.current).inside hcd

theorem get {f g : Cursor → Parser β} (h : Agree S gap c d (f c) (g d)) :
    Agree S gap c d (get >>= f) (get >>= g) :=
  ⟨h.past, h.inside⟩

theorem at? {f g : Bool → Parser β} {k : Kind}
    (h : Agree S gap c d (f (c.current.kind = k)) (g (c.current.kind = k))) :
    Agree S gap c d (at? k >>= f) (at? k >>= g) where
  past := h.past
  inside hcd := by
    have hrun : (Parser.at? k >>= f) c = f (c.current.kind = k) c := rfl
    have hrun' : (Parser.at? k >>= g) d = g (c.current.kind = k) d := by
      rw [hcd.kind]
      rfl
    simpa only [Exhausts, Ends, hrun, hrun'] using h.inside hcd

theorem advance {f g : Unit → Parser β} (hk : c.current.kind ≠ .endOfInput)
    (h : ∀ c' d', Agree S gap c' d' (f ()) (g ())) :
    Agree S gap c d (advance >>= f) (advance >>= g) where
  past hc := (h c.advance d).past hc.advance
  inside hcd := (h c.advance d.advance).of_beside (hcd.advance hk)

theorem accept {f g : Bool → Parser β} {k : Kind} (hend : k ≠ .endOfInput)
    (hyes : ∀ c' d', Agree S gap c' d' (f true) (g true))
    (hno : Agree S gap c d (f false) (g false)) :
    Agree S gap c d (accept k >>= f) (accept k >>= g) where
  past hc := by
    unfold Strays Ends
    by_cases hk : c.current.kind = k
    · rw [bind_of_ok (accept_of_eq hk)]
      exact (hyes c.advance d).past hc.advance
    · rw [bind_of_ok (accept_of_ne hk)]
      exact hno.past hc
  inside hcd := by
    by_cases hk : c.current.kind = k
    · have hrun := bind_of_ok (f := g) (accept_of_eq (hcd.kind ▸ hk))
      have h := (hyes c.advance d.advance).of_beside (hcd.advance (hk ▸ hend))
      simpa only [Exhausts, Ends, hrun, bind_of_ok (accept_of_eq hk)] using h
    · have hrun := bind_of_ok (f := g) (accept_of_ne (hcd.kind ▸ hk))
      simpa only [Exhausts, Ends, hrun, bind_of_ok (accept_of_ne hk)] using hno.inside hcd

theorem expect {f g : Token → Parser β} {k : Kind} {message : String} (hend : k ≠ .endOfInput)
    (h : ∀ t u c' d', S.Pairs t u → Agree S gap c' d' (f t) (g u)) :
    Agree S gap c d (expect k message >>= f) (expect k message >>= g) where
  past hc := by
    unfold Strays Ends
    by_cases hk : c.current.kind = k
    · rw [bind_of_ok (expect_of_eq hk message)]
      exact (h _ c.current _ d (hc.pairs _)).past hc.advance
    · rw [bind_of_error (expect_of_ne hk message)]
      exact .inl hc
  inside hcd := by
    by_cases hk : c.current.kind = k
    · have hrun := bind_of_ok (f := g) (expect_of_eq (hcd.kind ▸ hk) message)
      have h := (h _ _ c.advance d.advance hcd.current).of_beside (hcd.advance (hk ▸ hend))
      simpa only [Exhausts, Ends, hrun, bind_of_ok (expect_of_eq hk message)] using h
    · have hrun := bind_of_error (f := g) (expect_of_ne (hcd.kind ▸ hk) message)
      unfold Ends
      rw [bind_of_error (expect_of_ne hk message)]
      exact .inr (.inr ⟨_, d, hrun, ⟨rfl, .some hcd.current⟩, hcd.beside⟩)

/-- A token that is read last is a paired one, or the run is past these by one token. -/
theorem close {k : Kind} {message : String} (hk : k ≠ .endOfInput) :
    Agree S 1 c d (Parser.expect k message) (Parser.expect k message) where
  past hc := by
    unfold Strays Ends
    by_cases hck : c.current.kind = k
    · rw [expect_of_eq hck message]
      exact hc.advance_of_ne (hck ▸ hk)
    · rw [expect_of_ne hck message]
      exact .inl hc
  inside hcd := by
    unfold Ends
    by_cases hck : c.current.kind = k
    · rw [expect_of_eq hck message]
      exact .inr (.inr ⟨_, _, expect_of_eq (hcd.kind ▸ hck) message, hcd.current,
        hcd.advance (hck ▸ hk)⟩)
    · rw [expect_of_ne hck message]
      exact .inr (.inr ⟨_, d, expect_of_ne (hcd.kind ▸ hck) message,
        ⟨rfl, .some hcd.current⟩, hcd.beside⟩)

theorem checkHeight {f g : Unit → Parser β} {limits : Limits} {i j : Nat} {t u : Token}
    (htu : S.Pairs t u) (hij : i = j) (h : Agree S gap c d (f ()) (g ())) :
    Agree S gap c d (checkHeight limits i t >>= f) (checkHeight limits j u >>= g) := by
  subst hij
  by_cases hi : limits.height < i
  · have herror (t : Token) (c : Cursor) :
        Parser.checkHeight limits i t c = .error ⟨.tooHigh limits.height, some t⟩ c := by
      rw [Parser.checkHeight, if_pos hi]
      rfl
    constructor
    · intro hc
      unfold Strays Ends
      rw [bind_of_error (herror t c)]
      exact .inl hc
    · intro hcd
      unfold Ends
      rw [bind_of_error (herror t c)]
      exact .inr (.inr ⟨_, d, bind_of_error (herror u d), ⟨rfl, .some htu⟩, hcd.beside⟩)
  · have hf : (Parser.checkHeight limits i t >>= f) c = f () c :=
      bind_of_ok (checkHeight_of_not_lt hi t)
    have hg : (Parser.checkHeight limits i u >>= g) d = g () d :=
      bind_of_ok (checkHeight_of_not_lt hi u)
    constructor
    · simpa only [Strays, Ends, hf] using h.past
    · simpa only [Exhausts, Ends, hf, hg] using h.inside

theorem nested {limits : Limits} (h : Agree S gap c.deeper d.deeper p q) :
    Agree S gap c d (nested limits p) (nested limits q) where
  past hc := by
    unfold Strays Ends
    by_cases hlimit : limits.depth < c.depth + 1
    · rw [nested_of_lt hlimit]
      exact .inl hc.deeper
    · rw [nested_of_not_lt hlimit]
      have hp := h.past hc.deeper
      unfold Strays Ends at hp
      split at hp
      · exact hp.leave
      · exact hp.imp (·.leave) id
  inside hcd := by
    have hdepth := hcd.depth
    unfold Ends
    by_cases hlimit : limits.depth < c.depth + 1
    · rw [nested_of_lt hlimit]
      exact .inr (.inr ⟨_, _, nested_of_lt (hdepth ▸ hlimit), ⟨rfl, .some hcd.current⟩,
        hcd.deeper.beside⟩)
    · have hq := nested_of_not_lt (p := q) (hdepth ▸ hlimit : ¬limits.depth < d.depth + 1)
      have hex : Exhausts q d.deeper → Exhausts (Parser.nested limits q) d := by
        intro hex
        unfold Exhausts Ends at hex ⊢
        rw [hq]
        split at hex
        · exact hex
        · exact hex
      rw [nested_of_not_lt hlimit]
      have hp := h.inside hcd.deeper
      unfold Ends at hp
      split at hp
      · rcases hp with hpast | hp | ⟨b, d', hrun, hab, hbeside⟩
        · exact .inl hpast.leave
        · exact .inr (.inl (hex hp))
        · exact .inr (.inr ⟨b, leave d', by rw [hq, hrun], hab, hbeside.leave⟩)
      · rcases hp with hlost | hp | ⟨e', d', hrun, hee', hbeside⟩
        · exact .inl (hlost.imp (·.leave) id)
        · exact .inr (.inl (hex hp))
        · exact .inr (.inr ⟨e', leave d', by rw [hq, hrun], hee', hbeside.leave⟩)

theorem mono {gap' : Nat} (h : Agree S gap c d p q) (hgap : gap' ≤ gap) :
    Agree S gap' c d p q where
  past hc := (h.past hc).imp (fun _ _ hpast => hpast.mono hgap) fun _ _ he => he
  inside hcd := (h.inside hcd).imp (fun _ _ ha => ha.imp (·.mono hgap) id) fun _ _ he => he

/-- Runs that go past the paired tokens need not be compared. -/
theorem of_strays (hpast : S.Past 0 c → Strays S gap c p) (h : S.Inside c d → Strays S gap c p) :
    Agree S gap c d p q where
  past := hpast
  inside hcd := (h hcd).imp (fun _ _ h => .inl h) fun _ _ h => .inl h

theorem step {p' q' : Parser α} (hk : c.current.kind ≠ .endOfInput) (hp : p c = p' c.advance)
    (hq : S.Inside c d → q d = q' d.advance) (h : Agree S gap c.advance d.advance p' q') : Agree S gap c d p q where
  past hc := by
    have hpast := h.past hc.advance
    unfold Strays Ends at hpast ⊢
    rwa [hp]
  inside hcd := by
    have hbeside := h.of_beside (hcd.advance hk)
    unfold Exhausts Ends at hbeside ⊢
    rwa [hp, hq hcd]

/-- A choice that depends on a kind ahead: the token there may be behind the paired ones. -/
theorem ahead {p' q' : Parser α} {i : Nat} {k : Kind} (hyes : Agree S gap c d p q)
    (hno : Agree S gap c d p' q')
    (hbehind : S.Inside c d → c.after.length < i + S.rest.length →
      Agree S gap c d p q' ∧ Agree S gap c d p' q) :
    Agree S gap c d (if c.kindAhead? i = some k then p else p')
      (if d.kindAhead? i = some k then q else q') where
  past hc := by
    split
    · exact hyes.past hc
    · exact hno.past hc
  inside hcd := by
    -- either both runs see the same kind, or each may see its own and take its own way
    rcases hcd.kindAhead? i with heq | hbehind'
    · rw [heq]
      split
      · exact hyes.inside hcd
      · exact hno.inside hcd
    · obtain ⟨hyesno, hnoyes⟩ := hbehind hcd hbehind'
      split
      · split
        · exact hyes.inside hcd
        · exact hyesno.inside hcd
      · split
        · exact hnoyes.inside hcd
        · exact hno.inside hcd

theorem measured_left {p : Nat → Parser α} (h : ∀ m, Agree S gap c d (p m) q) :
    Agree S gap c d (Parser.measured p) q :=
  ⟨(h _).past, (h _).inside⟩

theorem measured {p q : Nat → Parser α} (h : ∀ m n, Agree S gap c d (p m) (q n)) :
    Agree S gap c d (measured p) (measured q) :=
  .measured_left fun m => ⟨(h m (4 * (d.after.length + 1) + 8)).past,
    (h m (4 * (d.after.length + 1) + 8)).inside⟩

/-- Two runs over paired tokens end in the same way, at the same place. -/
inductive SameEnd {α : Type} [Built α] (S : Overlap) :
    EStateM.Result SyntaxError Cursor α → EStateM.Result SyntaxError Cursor α → Prop
  | ok {a b : α} {c d : Cursor} (hab : Built.Alike S.Pairs a b) (hcd : S.Beside c d) :
    SameEnd S (.ok a c) (.ok b d)
  | error {e e' : SyntaxError} {c d : Cursor} (he : e.Alike S.Pairs e') (hcd : S.Beside c d) :
    SameEnd S (.error e c) (.error e' d)

/-- Runs that agree end in the same way, if the first one stays among the paired tokens and there are
steps enough. -/
theorem sameEnd_of_not_past (h : Agree S gap c d p q) (hcd : S.Beside c d)
    (hend : p.Ends c (fun _ c' => ¬S.Past 0 c') fun _ c' => ¬S.Past 0 c')
    (hp : ¬Exhausts p c) (hq : ¬Exhausts q d) : SameEnd S (p c) (q d) := by
  have hends := h.of_beside hcd
  unfold Exhausts Ends at hp
  unfold Ends at hends hend
  cases hrun : p c with
  | ok a c' =>
      rw [hrun] at hends hend
      rcases hends with hpast | hex | ⟨b, d', hrun', hab, hbeside⟩
      · exact absurd (hpast.mono (Nat.zero_le gap)) hend
      · exact absurd hex hq
      · rw [hrun']
        exact .ok hab hbeside
  | error e c' =>
      rw [hrun] at hends hend hp
      rcases hends with (hpast | hex) | hex | ⟨e', d', hrun', he, hbeside⟩
      · exact absurd hpast hend
      · exact absurd hex hp
      · exact absurd hex hq
      · rw [hrun']
        exact .error he hbeside

/-- Where all tokens of the first list are paired, its run cannot leave them. -/
theorem sameEnd (h : Agree S gap c d p q) (hrest : S.rest = []) (hcd : S.Beside c d)
    (hp : ¬Exhausts p c) (hq : ¬Exhausts q d) : SameEnd S (p c) (q d) := by
  refine h.sameEnd_of_not_past hcd ?_ hp hq
  unfold Ends
  split
  · exact fun hpast => hpast.rest_ne_nil hrest
  · exact fun hpast => hpast.rest_ne_nil hrest

end Agree

end Parser

end Cmm
