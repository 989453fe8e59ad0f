import Cmm.Proofs.Parser.Guided

/-!
# Truncated input

A parser that is run on truncated tokens does what it does on all of them, until it is at the end of
its input.  There it fails, or it gives a value that is no higher than the one that is read from all
tokens.  So it exceeds no limit that all tokens keep to, except that a level of nesting may be
opened at the end of the input.

The rules relate a run on the truncated tokens to a successful one on all of them.
-/

namespace Cmm

/-- One cursor is at the end of its input, or it is as deep as the other one, and has the same tokens
ahead up to the end of its input. -/
def Cursor.Cut (c d : Cursor) : Prop :=
  c.current.kind = .endOfInput ∨
    c.depth = d.depth ∧ ∃ u last rest more, u ≠ [] ∧ c.ahead = u ++ last :: rest ∧
      last.kind = .endOfInput ∧ d.ahead = u ++ more ∧ more ≠ []

/-- An error that is no exceeded limit, or that stands at the end of the input. -/
def SyntaxError.AtEnd (e : SyntaxError) (c : Cursor) : Prop :=
  e.cause.isLimit = false ∨ e.token = some c.current ∧ c.current.kind = .endOfInput

namespace Cursor.Cut

variable {c d : Cursor}

theorem advance (h : c.Cut d) (hk : c.current.kind ≠ .endOfInput) :
    c.current = d.current ∧ c.depth = d.depth ∧ c.advance.Cut d.advance := by
  rcases h with h | ⟨hdepth, u, last, rest, more, hu, hc, hlast, hd, hmore⟩
  · exact absurd h hk
  · cases u with
    | nil => exact absurd rfl hu
    | cons t u =>
        obtain ⟨hct, hc⟩ : c.current = t ∧ c.after = u ++ last :: rest := by
          simpa [Cursor.ahead] using hc
        obtain ⟨hdt, hd⟩ : d.current = t ∧ d.after = u ++ more := by
          simpa [Cursor.ahead] using hd
        have hcadvance : c.advance.ahead = u ++ last :: rest := by
          rw [ahead_advance (by simp [hc]), hc]
        have hdadvance : d.advance.ahead = u ++ more := by
          rw [ahead_advance (by simp [hd, hmore]), hd]
        refine ⟨hct.trans hdt.symm, hdepth, ?_⟩
        cases u with
        | nil =>
            obtain ⟨hcurrent, -⟩ := List.cons.inj hcadvance
            exact .inl (hcurrent ▸ hlast)
        | cons t' u =>
            exact .inr ⟨by rw [depth_advance, depth_advance, hdepth], t' :: u, last, rest, more, by simp,
              hcadvance, hlast, hdadvance, hmore⟩

theorem kindAhead? (h : c.Cut d) (hk : c.current.kind ≠ .endOfInput) (n : Nat) :
    c.kindAhead? n = d.kindAhead? n ∨ ∃ m, 1 ≤ m ∧ m ≤ n ∧ c.kindAhead? m = some .endOfInput := by
  rcases h with h | ⟨-, u, last, rest, more, hu, hc, hlast, hd, -⟩
  · exact absurd h hk
  have hcn : ∀ n, c.kindAhead? n = (u ++ last :: rest)[n]?.map Token.kind :=
    fun n => congrArg (fun l : List Token => l[n]?.map Token.kind) hc
  have hdn : d.kindAhead? n = (u ++ more)[n]?.map Token.kind :=
    congrArg (fun l : List Token => l[n]?.map Token.kind) hd
  by_cases hn : n < u.length
  · left
    rw [hcn, hdn, List.getElem?_append_left hn, List.getElem?_append_left hn]
  · right
    refine ⟨u.length, List.length_pos_iff.2 hu, by omega, ?_⟩
    rw [hcn, List.getElem?_append_right (Nat.le_refl _)]
    simp [hlast]

theorem deeper (h : c.Cut d) : c.deeper.Cut d.deeper :=
  h.imp id fun h => ⟨congrArg (· + 1) h.1, h.2⟩

theorem leave (h : c.Cut d) : (Parser.leave c).Cut (Parser.leave d) :=
  h.imp id fun h => ⟨congrArg (· - 1) h.1, h.2⟩

end Cursor.Cut

namespace Parser

theorem exists_of_bind_ok {α β : Type} {p : Parser α} {f : α → Parser β} {c e : Cursor} {b : β}
    (h : (p >>= f) c = .ok b e) : ∃ a d, p c = .ok a d ∧ f a d = .ok b e := by
  simp only [bind, EStateM.bind] at h
  split at h
  · exact ⟨_, _, by assumption, h⟩
  · cases h

def FailsAtEnd {α : Type} (p : Parser α) : Prop :=
  ∀ c : Cursor, c.current.kind = .endOfInput → p.Ends c (fun _ _ => False) fun e d => e.AtEnd d

namespace FailsAtEnd

variable {α β : Type} {p : Parser α} {f : α → Parser β}

theorem bind (h : FailsAtEnd p) : FailsAtEnd (p >>= f) :=
  fun c hc => ends_bind.2 (h c hc).of_fails

theorem map {g : α → β} (h : FailsAtEnd p) : FailsAtEnd (g <$> p) :=
  fun c hc => ends_map.2 (h c hc).of_fails

theorem exhausted : FailsAtEnd (exhausted : Parser α) :=
  fun _ _ => .inl rfl

theorem measured {p : Nat → Parser α} (h : ∀ n, FailsAtEnd (p n)) :
    FailsAtEnd (measured p) :=
  fun c hc => h (4 * (c.after.length + 1) + 8) c hc

theorem expect {k : Kind} (hk : k ≠ .endOfInput) (message : String) :
    FailsAtEnd (expect k message) := by
  intro c hc
  unfold Ends
  rw [expect_of_ne (by rw [hc]; exact hk.symm)]
  exact .inl rfl

theorem nested {limits : Limits} (h : FailsAtEnd p) : FailsAtEnd (nested limits p) := by
  intro c hc
  unfold Ends
  by_cases hdepth : limits.depth < c.depth + 1
  · rw [nested_of_lt hdepth]
    exact .inr ⟨rfl, hc⟩
  · rw [nested_of_not_lt hdepth]
    have hends := h c.deeper hc
    unfold Ends at hends
    split at hends
    · exact hends.elim
    · exact hends

end FailsAtEnd

/-- If `q` succeeds on all tokens, `p` gives a related value on the truncated ones, or fails as it
may. -/
def Follows {α : Type} (c d : Cursor) (p q : Parser α) (R : α → α → Prop) : Prop :=
  c.Cut d → ∀ b d', q d = .ok b d' →
    p.Ends c (fun a c' => c'.Cut d' ∧ R a b) fun e c' => e.AtEnd c'

namespace Follows

variable {α β : Type} {c d : Cursor} {p q : Parser α} {f g : α → Parser β} {k : Kind}
  {R : α → α → Prop} {S : β → β → Prop}

theorem imp {R' : α → α → Prop} (h : Follows c d p q R) (hR : ∀ a b, R a b → R' a b) :
    Follows c d p q R' :=
  fun hcut b d' hq => (h hcut b d' hq).imp (fun _ _ ha => ⟨ha.1, hR _ _ ha.2⟩) fun _ _ he => he

theorem bind (hp : Follows c d p q R)
    (hf : ∀ a b c' d', R a b → Follows c' d' (f a) (g b) S) :
    Follows c d (p >>= f) (q >>= g) S := by
  intro hcut b e hq
  obtain ⟨b', d', hq, hg⟩ := exists_of_bind_ok hq
  refine ends_bind.2 ((hp hcut b' d' hq).imp ?_ fun _ _ he => he)
  exact fun a c' ha => hf a b' c' d' ha.2 ha.1 b e hg

theorem map {γ δ : α → β} (hp : Follows c d p q R) (h : ∀ a b, R a b → S (γ a) (δ b)) :
    Follows c d (γ <$> p) (δ <$> q) S := by
  intro hcut b e hq
  simp only [Functor.map, EStateM.map] at hq
  split at hq
  · rename_i b' d' hrun
    cases hq
    exact ends_map.2 ((hp hcut b' _ hrun).imp (fun a c' ha => ⟨ha.1, h a b' ha.2⟩) fun _ _ he => he)
  · cases hq

theorem pure {a b : α} (h : R a b) : Follows c d (pure a) (pure b) R := by
  rintro hcut _ _ ⟨⟩
  exact ⟨hcut, h⟩

theorem fail {message : String} : Follows c d (fail message) q R :=
  fun _ _ _ _ => .inl rfl

theorem exhausted : Follows c d exhausted q R :=
  fun _ _ _ _ => .inl rfl

theorem of_end (h : c.current.kind = .endOfInput → p.Ends c
      (fun a c' => c'.current.kind = .endOfInput ∧ ∀ b d', q d = .ok b d' → R a b)
      fun e c' => e.AtEnd c')
    (hsame : c.current.kind ≠ .endOfInput → c.current = d.current → Follows c d p q R) :
    Follows c d p q R := by
  intro hcut b d' hq
  by_cases hk : c.current.kind = .endOfInput
  · exact (h hk).imp (fun a c' ha => ⟨.inl ha.1, ha.2 b d' hq⟩) fun _ _ he => he
  · exact hsame hk (hcut.advance hk).1 hcut b d' hq

theorem of_failsAtEnd (hp : FailsAtEnd p)
    (hsame : c.current.kind ≠ .endOfInput → c.current = d.current → Follows c d p q R) :
    Follows c d p q R :=
  of_end (fun hc => (hp c hc).of_fails) hsame

theorem fails_end (hc : c.current.kind = .endOfInput) (hp : FailsAtEnd p) : Follows c d p q R :=
  of_failsAtEnd hp fun hc' => absurd hc hc'

theorem pure_end {a : α} (hc : c.current.kind = .endOfInput)
    (h : ∀ b d', q d = .ok b d' → R a b) : Follows c d (Pure.pure a) q R :=
  fun _ b d' hq => ⟨.inl hc, h b d' hq⟩

theorem exhausted_right : Follows c d p (Parser.exhausted : Parser α) R :=
  fun _ _ _ hq => by cases hq

theorem ahead {i : Nat} {p' q' : Parser α} (hk : k ≠ .endOfInput)
    (hc : c.current.kind ≠ .endOfInput) (hyes : Follows c d p q R) (hno : Follows c d p' q' R)
    (hend : ∀ j, 1 ≤ j → j ≤ i → c.kindAhead? j = some .endOfInput → Follows c d p' q R)
    (hend' : ∀ j, 1 ≤ j → j < i → c.kindAhead? j = some .endOfInput → Follows c d p q' R) :
    Follows c d (if c.kindAhead? i = some k then p else p')
      (if d.kindAhead? i = some k then q else q') R := by
  intro hcut
  rcases hcut.kindAhead? hc i with heq | ⟨j, hj, hji, hkj⟩
  · rw [heq]
    split
    · exact hyes hcut
    · exact hno hcut
  · by_cases hp : c.kindAhead? i = some k
    · have hne : j ≠ i := by
        rintro rfl
        exact hk (Option.some.inj (hp.symm.trans hkj))
      rw [if_pos hp]
      split
      · exact hyes hcut
      · exact hend' j hj (by omega) hkj hcut
    · rw [if_neg hp]
      split
      · exact hend j hj hji hkj hcut
      · exact hno hcut

theorem current {f g : Token → Parser β} (h : Follows c d (f c.current) (g d.current) S) :
    Follows c d (current >>= f) (current >>= g) S :=
  h

theorem get {f g : Cursor → Parser β} (h : Follows c d (f c) (g d) S) :
    Follows c d (get >>= f) (get >>= g) S :=
  h

theorem at? {f g : Bool → Parser β}
    (h : Follows c d (f (c.current.kind = k)) (g (d.current.kind = k)) S) :
    Follows c d (at? k >>= f) (at? k >>= g) S :=
  h

theorem advance {f g : Unit → Parser β} (hk : c.current.kind ≠ .endOfInput)
    (h : ∀ c' d', Follows c' d' (f ()) (g ()) S) :
    Follows c d (advance >>= f) (advance >>= g) S :=
  fun hcut b d' hq => h _ _ (hcut.advance hk).2.2 b d' hq

theorem expect {f g : Token → Parser β} {message : String} (hk : k ≠ .endOfInput)
    (h : ∀ t u c' d', Follows c' d' (f t) (g u) S) :
    Follows c d (expect k message >>= f) (expect k message >>= g) S := by
  intro hcut b d' hq
  unfold Ends
  by_cases hc : c.current.kind = k
  · have hsame := hcut.advance (hc ▸ hk)
    rw [bind_of_ok (expect_of_eq hc message)]
    rw [bind_of_ok (expect_of_eq (hsame.1 ▸ hc) message)] at hq
    exact h _ _ _ _ hsame.2.2 b d' hq
  · rw [bind_of_error (expect_of_ne hc message)]
    exact .inl rfl

/-- A token that need not come is passed over at the end of the input. -/
theorem accept {f g : Bool → Parser β} (hk : k ≠ .endOfInput)
    (hyes : ∀ c' d', Follows c' d' (f true) (g true) S)
    (hno : Follows c d (f false) (g false) S)
    (hend : c.current.kind = .endOfInput → Follows c d.advance (f false) (g true) S) :
    Follows c d (accept k >>= f) (accept k >>= g) S := by
  intro hcut b d' hq
  unfold Ends
  by_cases hc : c.current.kind = k
  · have hsame := hcut.advance (hc ▸ hk)
    rw [bind_of_ok (accept_of_eq hc)]
    rw [bind_of_ok (accept_of_eq (hsame.1 ▸ hc))] at hq
    exact hyes _ _ hsame.2.2 b d' hq
  · rw [bind_of_ok (accept_of_ne hc)]
    by_cases hd : d.current.kind = k
    · rw [bind_of_ok (accept_of_eq hd)] at hq
      have hcend : c.current.kind = .endOfInput := by
        by_cases hcend : c.current.kind = .endOfInput
        · exact hcend
        · exact absurd ((hcut.advance hcend).1 ▸ hd) hc
      exact hend hcend (.inl hcend) b d' hq
    · rw [bind_of_ok (accept_of_ne hd)] at hq
      exact hno hcut b d' hq

theorem nested {limits : Limits} (h : Follows c.deeper d.deeper p q R) :
    Follows c d (nested limits p) (nested limits q) R := by
  intro hcut b d' hq
  have hd : ¬limits.depth < d.depth + 1 := by
    intro hlt
    rw [nested_of_lt hlt] at hq
    cases hq
  rw [nested_of_not_lt hd] at hq
  unfold Ends
  by_cases hc : limits.depth < c.depth + 1
  · rw [nested_of_lt hc]
    refine .inr ⟨rfl, ?_⟩
    rcases hcut with hend | ⟨hdepth, -⟩
    · exact hend
    · exact absurd (hdepth ▸ hc) hd
  · rw [nested_of_not_lt hc]
    cases hrun : q d.deeper with
    | error e e' =>
        rw [hrun] at hq
        cases hq
    | ok b' e' =>
        rw [hrun] at hq
        obtain ⟨rfl, rfl⟩ : b' = b ∧ leave e' = d' := by simpa using hq
        have hends := h hcut.deeper b' e' hrun
        unfold Ends at hends
        split at hends
        · exact ⟨hends.1.leave, hends.2⟩
        · exact hends

theorem checkHeight {f g : Unit → Parser β} {limits : Limits} {i j : Nat} {t u : Token}
    (hij : i ≤ j) (h : Follows c d (f ()) (g ()) S) :
    Follows c d (checkHeight limits i t >>= f) (checkHeight limits j u >>= g) S := by
  intro hcut b d' hq
  have hj : ¬limits.height < j := by
    intro hlt
    rw [Parser.checkHeight, if_pos hlt] at hq
    cases hq
  rw [bind_of_ok (checkHeight_of_not_lt hj u)] at hq
  unfold Ends
  rw [bind_of_ok (checkHeight_of_not_lt (by omega) t)]
  exact h hcut b d' hq

theorem measured {p q : Nat → Parser α} (h : ∀ m n, Follows c d (p m) (q n) R) :
    Follows c d (measured p) (measured q) R :=
  h _ _

end Follows

end Parser

end Cmm
