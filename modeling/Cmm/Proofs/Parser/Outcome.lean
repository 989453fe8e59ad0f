import Cmm.Parser.Program

/-!
# Outcomes

How a parser ends when it is run from a cursor, and the tokens between two cursors.
-/

namespace Cmm

namespace Cursor

def ahead (c : Cursor) : List Token := c.current :: c.after

def kinds (c : Cursor) : List Kind := c.ahead.map Token.kind

def deeper (c : Cursor) : Cursor := { c with depth := c.depth + 1 }

/-- The last token is the end of the input. -/
def Closed (c : Cursor) : Prop := c.kinds.getLast? = some .endOfInput

@[simp] theorem ahead_ne_nil (c : Cursor) : c.ahead ≠ [] := by simp [ahead]

@[simp] theorem length_ahead (c : Cursor) : c.ahead.length = c.after.length + 1 := rfl

@[simp] theorem after_deeper (c : Cursor) : c.deeper.after = c.after := rfl

@[simp] theorem leave_deeper (c : Cursor) : Parser.leave c.deeper = c := by
  simp [Parser.leave, deeper]

theorem kinds_eq_cons (c : Cursor) : c.kinds = c.current.kind :: c.after.map Token.kind := rfl

theorem depth_advance (c : Cursor) : c.advance.depth = c.depth := by
  unfold advance
  split <;> rfl

theorem ahead_advance {c : Cursor} (h : c.after ≠ []) : c.advance.ahead = c.after := by
  cases hafter : c.after with
  | nil => exact absurd hafter h
  | cons t rest => simp [advance, hafter, ahead]

theorem kindAhead?_advance {c : Cursor} (h : c.after ≠ []) (i : Nat) :
    c.advance.kindAhead? i = c.kindAhead? (i + 1) := by
  change c.advance.ahead[i]?.map Token.kind = c.ahead[i + 1]?.map Token.kind
  rw [ahead_advance h]
  rfl

/-- From one cursor over some tokens, none of them the end of the input, to another. -/
structure Reads (c : Cursor) (u : List Token) (d : Cursor) : Prop where
  ahead : c.ahead = u ++ d.ahead
  before : d.before = u.reverse ++ c.before
  depth : d.depth = c.depth
  inside : ∀ t ∈ u, t.kind ≠ .endOfInput

namespace Reads

variable {c d e : Cursor} {u v : List Token}

theorem refl (c : Cursor) : c.Reads [] c := ⟨rfl, rfl, rfl, by simp⟩

theorem trans (hu : c.Reads u d) (hv : d.Reads v e) : c.Reads (u ++ v) e where
  ahead := by rw [hu.ahead, hv.ahead, List.append_assoc]
  before := by rw [hv.before, hu.before, List.reverse_append, List.append_assoc]
  depth := hv.depth.trans hu.depth
  inside := by
    intro t ht
    rcases List.mem_append.1 ht with ht | ht
    · exact hu.inside t ht
    · exact hv.inside t ht

theorem length (h : c.Reads u d) : d.after.length + u.length = c.after.length := by
  have := congrArg List.length h.ahead
  simp at this
  omega

theorem kinds (h : c.Reads u d) : c.kinds = u.map Token.kind ++ d.kinds := by
  simp [Cursor.kinds, h.ahead]

theorem closed (h : c.Reads u d) (hc : c.Closed) : d.Closed := by
  obtain ⟨k, hk⟩ : ∃ k, d.kinds.getLast? = some k :=
    ⟨_, List.getLast?_eq_some_getLast (by simp [kinds_eq_cons])⟩
  rw [Closed, h.kinds, List.getLast?_append, hk] at hc
  exact hk.trans hc

theorem kindAhead?_length (h : c.Reads u d) : c.kindAhead? u.length = some d.current.kind := by
  change c.ahead[u.length]?.map Token.kind = _
  rw [h.ahead, List.getElem?_append_right (Nat.le_refl _), Nat.sub_self]
  rfl

theorem index (h : c.Reads u d) : d.index = c.index + u.length := by
  simp [Cursor.index, h.before, Nat.add_comm]

theorem tokens (h : c.Reads u d) : d.tokens = c.tokens := by
  change d.before.reverse ++ d.ahead = c.before.reverse ++ c.ahead
  rw [h.ahead, h.before, List.reverse_append, List.reverse_reverse, List.append_assoc]

theorem unique (h : c.Reads u d) (h' : c.Reads u e) : d = e := by
  have ha : d.ahead = e.ahead := List.append_cancel_left (h.ahead.symm.trans h'.ahead)
  obtain ⟨hcurrent, hafter⟩ := List.cons.inj ha
  have hb := h.before.trans h'.before.symm
  have hd := h.depth.trans h'.depth.symm
  cases d
  cases e
  simp_all

theorem unique_tokens (h : c.Reads u d) (h' : c.Reads v d) : u = v :=
  List.append_cancel_right (h.ahead.symm.trans h'.ahead)

theorem deeper (h : c.Reads u d) : c.deeper.Reads u d.deeper where
  ahead := h.ahead
  before := h.before
  depth := by simp [Cursor.deeper, h.depth]
  inside := h.inside

theorem leave (h : c.deeper.Reads u d) : c.Reads u (Parser.leave d) ∧ (Parser.leave d).deeper = d where
  left := ⟨h.ahead, h.before, by simp [Parser.leave, h.depth, Cursor.deeper], h.inside⟩
  right := by
    have hd : d.depth = c.depth + 1 := h.depth
    cases d
    simp_all [Parser.leave, Cursor.deeper]

theorem exists_of_ahead (h : c.ahead = u ++ v) (hv : v ≠ []) (hu : ∀ t ∈ u, t.kind ≠ .endOfInput) :
    ∃ d, c.Reads u d ∧ d.ahead = v := by
  cases v with
  | nil => exact absurd rfl hv
  | cons t rest => exact ⟨⟨u.reverse ++ c.before, t, rest, c.depth⟩, ⟨h, rfl, rfl, hu⟩, rfl⟩

/-- A way over two lists of tokens has a cursor between them. -/
theorem split (h : c.Reads (u ++ v) e) : ∃ d, c.Reads u d ∧ d.Reads v e := by
  have hahead := h.ahead
  rw [List.append_assoc] at hahead
  obtain ⟨d, hu, hd⟩ := exists_of_ahead hahead (by simp)
    fun t ht => h.inside t (List.mem_append_left _ ht)
  refine ⟨d, hu, hd, ?_, h.depth.trans hu.depth.symm, fun t ht =>
    h.inside t (List.mem_append_right _ ht)⟩
  rw [h.before, hu.before, List.reverse_append, List.append_assoc]

end Reads

theorem after_ne_nil {c : Cursor} (hc : c.Closed) (hk : c.current.kind ≠ .endOfInput) :
    c.after ≠ [] := by
  intro h
  simp only [Closed, kinds_eq_cons, h] at hc
  exact hk (Option.some.inj hc)

theorem reads_advance {c : Cursor} (hc : c.Closed) (hk : c.current.kind ≠ .endOfInput) :
    c.Reads [c.current] c.advance := by
  have hne := after_ne_nil hc hk
  cases hafter : c.after with
  | nil => exact absurd hafter hne
  | cons next rest =>
      refine ⟨?_, ?_, ?_, by simpa using hk⟩ <;> simp [ahead, advance, hafter]

theorem Reads.head {c d : Cursor} {t : Token} {u : List Token} (h : c.Reads (t :: u) d) :
    c.current = t ∧ t.kind ≠ .endOfInput ∧ c.advance.Reads u d := by
  obtain ⟨ht, hu⟩ := List.cons.inj h.ahead
  have hk := h.inside t (by simp)
  obtain ⟨e, he, hd⟩ := split (u := [t]) h
  have hadvance : c.Reads [t] c.advance := by
    have hcons := hu.symm
    cases hafter : c.after with
    | nil => simp [hafter] at hcons
    | cons next rest =>
        refine ⟨?_, ?_, ?_, by simpa using hk⟩ <;> simp [Cursor.ahead, advance, hafter, ht]
  exact ⟨ht, hk, he.unique hadvance ▸ hd⟩

theorem getLast?_closeInput (tokens : List Token) :
    (closeInput tokens).getLast?.map Token.kind = some .endOfInput := by
  unfold closeInput
  cases h : tokens.getLast? with
  | none => rfl
  | some last =>
      dsimp only
      split
      · rename_i hk
        simp [h, hk]
      · simp [Token.kind, Token.endOfInput, Lexeme.kind]

theorem ahead_ofTokens (tokens : List Token) : (ofTokens tokens).ahead = closeInput tokens := by
  unfold ofTokens
  cases h : closeInput tokens with
  | nil => exact absurd h (closeInput_ne_nil tokens)
  | cons first rest => rfl

theorem before_ofTokens (tokens : List Token) : (ofTokens tokens).before = [] := by
  unfold ofTokens
  split <;> rfl

theorem depth_ofTokens (tokens : List Token) : (ofTokens tokens).depth = 0 := by
  unfold ofTokens
  split <;> rfl

theorem closed_ofTokens (tokens : List Token) : (ofTokens tokens).Closed := by
  rw [Closed, kinds, ahead_ofTokens, List.getLast?_map, getLast?_closeInput]

/-- Of a list of tokens, those up to the first end can be read, in front of the next one. -/
theorem exists_reads_ofTokens {u : List Token} (rest : List Token)
    (hu : ∀ t ∈ u, t.kind ≠ .endOfInput) : ∃ d, (ofTokens (u ++ rest)).Reads u d ∧
      d.current.kind = (rest.head?.map Token.kind).getD .endOfInput := by
  have hclose : ∃ v t, closeInput (u ++ rest) = u ++ t :: v ∧
      t.kind = (rest.head?.map Token.kind).getD .endOfInput := by
    unfold closeInput
    cases rest with
    | nil =>
        rw [List.append_nil]
        cases hlast : u.getLast? with
        | none =>
            obtain rfl := List.getLast?_eq_none_iff.1 hlast
            exact ⟨[], _, rfl, rfl⟩
        | some last =>
            have hk := hu last (List.mem_of_getLast? hlast)
            exact ⟨[], _, if_neg hk, rfl⟩
    | cons t rest =>
        rw [List.getLast?_append]
        cases hlast : (t :: rest).getLast? with
        | none => simp at hlast
        | some last =>
            rw [Option.some_or]
            dsimp only
            split
            · exact ⟨rest, t, rfl, rfl⟩
            · exact ⟨rest ++ [_], t, by rw [List.append_assoc]; rfl, rfl⟩
  obtain ⟨v, t, hv, ht⟩ := hclose
  rw [← ahead_ofTokens] at hv
  obtain ⟨d, hd, hahead⟩ := Reads.exists_of_ahead hv (by simp) hu
  obtain ⟨hcurrent, -⟩ := List.cons.inj hahead
  exact ⟨d, hd, by rw [hcurrent, ht]⟩

end Cursor

namespace Parser

/-! ## Runs of the simple parsers -/

section Simple

variable {α β : Type} {p : Parser α} {f : α → Parser β} {c d : Cursor} {k : Kind}

theorem bind_of_ok {a : α} (h : p c = .ok a d) : (p >>= f) c = f a d := by
  simp only [bind, EStateM.bind, h]

theorem bind_of_error {e : SyntaxError} (h : p c = .error e d) :
    (p >>= f) c = .error e d := by
  simp only [bind, EStateM.bind, h]

theorem accept_of_eq (h : c.current.kind = k) : accept k c = .ok true c.advance := by
  change (if decide (c.current.kind = k) = true then _ else _ : Parser Bool) c = _
  rw [if_pos (decide_eq_true h)]
  rfl

theorem accept_of_ne (h : c.current.kind ≠ k) : accept k c = .ok false c := by
  change (if decide (c.current.kind = k) = true then _ else _ : Parser Bool) c = _
  rw [if_neg (by simpa using h)]
  rfl

theorem expect_of_eq (h : c.current.kind = k) (message : String) :
    expect k message c = .ok c.current c.advance := by
  change (if c.current.kind = k then _ else _ : Parser Token) c = _
  rw [if_pos h]
  rfl

theorem expect_of_ne (h : c.current.kind ≠ k) (message : String) :
    expect k message c = .error ⟨.unexpected message, some c.current⟩ c := by
  change (if c.current.kind = k then _ else _ : Parser Token) c = _
  rw [if_neg h]
  rfl

theorem enter_of_lt {limits : Limits} (h : limits.depth < c.depth + 1) :
    enter limits c = .error ⟨.tooDeep limits.depth, some c.current⟩ c.deeper := by
  change (if limits.depth < ((c.depth + 1 : Nat) : Int) then _ else _ : Parser Unit) _ = _
  rw [if_pos (by omega)]
  rfl

theorem enter_of_not_lt {limits : Limits} (h : ¬limits.depth < c.depth + 1) :
    enter limits c = .ok () c.deeper := by
  change (if limits.depth < ((c.depth + 1 : Nat) : Int) then _ else _ : Parser Unit) _ = _
  rw [if_neg (by omega)]
  rfl

theorem nested_of_lt {limits : Limits} (h : limits.depth < c.depth + 1) :
    nested limits p c = .error ⟨.tooDeep limits.depth, some c.current⟩ c.deeper :=
  bind_of_error (enter_of_lt h)

theorem nested_of_not_lt {limits : Limits} (h : ¬limits.depth < c.depth + 1) :
    nested limits p c = match p c.deeper with
      | .ok a d => .ok a (leave d)
      | .error e d => .error e (leave d) :=
  bind_of_ok (enter_of_not_lt h)

theorem checkHeight_of_not_lt {limits : Limits} {height : Nat} (h : ¬limits.height < height)
    (t : Token) : checkHeight limits height t c = .ok () c := by
  rw [checkHeight, if_neg h]
  rfl

end Simple

/-! ## How a parser ends -/

/-- A parser that is run from a cursor ends as one predicate says if it succeeds, and as the other
says if it fails. -/
def Ends {α : Type} (p : Parser α) (c : Cursor) (Q : α → Cursor → Prop)
    (E : SyntaxError → Cursor → Prop) : Prop :=
  match p c with
  | .ok a d => Q a d
  | .error e d => E e d

section Ends

variable {α β : Type} {p : Parser α} {f : α → Parser β} {c : Cursor}
  {E : SyntaxError → Cursor → Prop}

theorem ends_bind {Q : β → Cursor → Prop} :
    (p >>= f).Ends c Q E ↔ p.Ends c (fun a d => (f a).Ends d Q E) E := by
  simp only [Ends, bind, EStateM.bind]
  cases p c <;> rfl

theorem ends_current {f : Token → Parser α} {Q : α → Cursor → Prop} :
    (current >>= f).Ends c Q E ↔ (f c.current).Ends c Q E :=
  .rfl

theorem ends_accept_of_ne {f : Bool → Parser α} {k : Kind} {Q : α → Cursor → Prop}
    (h : c.current.kind ≠ k) : (accept k >>= f).Ends c Q E ↔ (f false).Ends c Q E := by
  simp only [Ends, bind_of_ok (accept_of_ne h)]

theorem ends_map {g : α → β} {Q : β → Cursor → Prop} :
    (g <$> p).Ends c Q E ↔ p.Ends c (fun a d => Q (g a) d) E := by
  simp only [Ends, Functor.map, EStateM.map]
  cases p c <;> rfl

theorem Ends.imp {Q Q' : α → Cursor → Prop} {E' : SyntaxError → Cursor → Prop}
    (h : p.Ends c Q E) (hQ : ∀ a d, Q a d → Q' a d) (hE : ∀ e d, E e d → E' e d) :
    p.Ends c Q' E' := by
  unfold Ends at h ⊢
  split at h
  · exact hQ _ _ h
  · exact hE _ _ h

theorem Ends.of_fails {Q : α → Cursor → Prop} (h : p.Ends c (fun _ _ => False) E) :
    p.Ends c Q E :=
  h.imp (fun _ _ h => h.elim) fun _ _ h => h

theorem ends_of_ok {Q : α → Cursor → Prop} {a : α} {d : Cursor} (h : p c = .ok a d)
    (hQ : Q a d) : p.Ends c Q E := by
  simpa only [Ends, h] using hQ

theorem Ends.of_ok {Q : α → Cursor → Prop} {a : α} {d : Cursor} (h : p.Ends c Q E)
    (hok : p c = .ok a d) : Q a d := by
  simpa only [Ends, hok] using h

theorem Ends.of_error {Q : α → Cursor → Prop} {e : SyntaxError} {d : Cursor}
    (h : p.Ends c Q E) (herror : p c = .error e d) : E e d := by
  simpa only [Ends, herror] using h

end Ends

/-! ## What a parser reads -/

/-- Run from a cursor on tokens with an end, `p` reads some of them and gives a value, or reads some
of them and fails; `Q` is about the value, the tokens read and the cursor behind them, `E` about the
error, the tokens read, the cursor behind them and the one that is left. -/
def Runs {α : Type} (c : Cursor) (p : Parser α) (Q : α → List Token → Cursor → Prop)
    (E : SyntaxError → List Token → Cursor → Cursor → Prop) : Prop :=
  c.Closed → p.Ends c (fun a d => ∃ u, c.Reads u d ∧ Q a u d)
    fun e d' => ∃ u d, c.Reads u d ∧ E e u d d'

namespace Runs

variable {α β : Type} {c : Cursor} {p : Parser α} {f : α → Parser β} {k : Kind}
  {Q : α → List Token → Cursor → Prop} {R : β → List Token → Cursor → Prop}
  {E : SyntaxError → List Token → Cursor → Cursor → Prop}

theorem imp {Q' : α → List Token → Cursor → Prop}
    {E' : SyntaxError → List Token → Cursor → Cursor → Prop} (h : Runs c p Q E)
    (hQ : ∀ a u d, c.Reads u d → Q a u d → Q' a u d)
    (hE : ∀ e u d d', c.Reads u d → E e u d d' → E' e u d d') : Runs c p Q' E' := by
  refine fun hc => (h hc).imp ?_ ?_
  · rintro a d ⟨u, hu, hQu⟩
    exact ⟨u, hu, hQ a u d hu hQu⟩
  · rintro e d' ⟨u, d, hu, hEu⟩
    exact ⟨u, d, hu, hE e u d d' hu hEu⟩

theorem and {Q' : α → List Token → Cursor → Prop} {E' : SyntaxError → List Token → Cursor → Cursor → Prop}
    (h : Runs c p Q E) (h' : Runs c p Q' E') :
    Runs c p (fun a u d => Q a u d ∧ Q' a u d) E := by
  intro hc
  have hend := h hc
  have hend' := h' hc
  unfold Ends at hend hend' ⊢
  split at hend
  · obtain ⟨u, hu, hQ⟩ := hend
    rename_i hrun
    rw [hrun] at hend'
    obtain ⟨v, hv, hQ'⟩ := hend'
    obtain rfl : u = v := hu.unique_tokens hv
    exact ⟨u, hu, hQ, hQ'⟩
  · exact hend

theorem bind (hp : Runs c p Q E)
    (hf : ∀ a u d, c.Reads u d → Q a u d →
      Runs d (f a) (fun b v => R b (u ++ v)) fun e v => E e (u ++ v)) :
    Runs c (p >>= f) R E := by
  intro hc
  have hend := hp hc
  unfold Ends at hend
  rw [ends_bind]
  unfold Ends
  cases hrun : p c with
  | error e d' =>
      rw [hrun] at hend
      exact hend
  | ok a d =>
      rw [hrun] at hend
      obtain ⟨u, hu, hQ⟩ := hend
      refine (hf a u d hu hQ (hu.closed hc)).imp ?_ ?_
      · rintro b e ⟨v, hv, hR⟩
        exact ⟨u ++ v, hu.trans hv, hR⟩
      · rintro e d' ⟨v, d'', hv, hE⟩
        exact ⟨u ++ v, d'', hu.trans hv, hE⟩

theorem step {a : α} {d : Cursor} {u : List Token} (hp : p c = .ok a d) (hu : c.Reads u d)
    (h : Runs d (f a) (fun b v => R b (u ++ v)) fun e v => E e (u ++ v)) :
    Runs c (p >>= f) R E := by
  intro hc
  have hend := h (hu.closed hc)
  unfold Ends at hend ⊢
  rw [bind_of_ok hp]
  split at hend
  · obtain ⟨v, hv, hR⟩ := hend
    exact ⟨u ++ v, hu.trans hv, hR⟩
  · obtain ⟨v, d', hv, hE⟩ := hend
    exact ⟨u ++ v, d', hu.trans hv, hE⟩

theorem stop {e : SyntaxError} (hp : p c = .error e c) (h : E e [] c c) :
    Runs c (p >>= f) R E := by
  intro _
  unfold Ends
  rw [bind_of_error hp]
  exact ⟨[], c, .refl c, h⟩

theorem map {g : α → β} (hp : Runs c p (fun a => R (g a)) E) : Runs c (g <$> p) R E :=
  fun hc => ends_map.2 (hp hc)

theorem pure {a : α} (h : Q a [] c) : Runs c (pure a) Q E :=
  fun _ => ⟨[], .refl c, h⟩

theorem fail {message : String} (h : E ⟨.unexpected message, some c.current⟩ [] c c) :
    Runs c (fail message) Q E :=
  fun _ => ⟨[], c, .refl c, h⟩

theorem exhausted (h : E ⟨.exhausted, some c.current⟩ [] c c) : Runs c exhausted Q E :=
  fun _ => ⟨[], c, .refl c, h⟩

theorem current {f : Token → Parser β} (h : Runs c (f c.current) R E) :
    Runs c (current >>= f) R E :=
  h

theorem get {f : Cursor → Parser β} (h : Runs c (f c) R E) : Runs c (get >>= f) R E :=
  h

theorem at? {f : Bool → Parser β} (h : Runs c (f (c.current.kind = k)) R E) :
    Runs c (at? k >>= f) R E :=
  h

theorem advance {f : Unit → Parser β} (hk : c.current.kind ≠ .endOfInput)
    (h : Runs c.advance (f ()) (fun b v => R b (c.current :: v))
      fun e v => E e (c.current :: v)) :
    Runs c (advance >>= f) R E :=
  fun hc => step rfl (Cursor.reads_advance hc hk) h hc

theorem expect {f : Token → Parser β} {message : String} (hk : k ≠ .endOfInput)
    (hyes : c.current.kind = k → Runs c.advance (f c.current)
      (fun b v => R b (c.current :: v)) fun e v => E e (c.current :: v))
    (hno : c.current.kind ≠ k → E ⟨.unexpected message, some c.current⟩ [] c c) :
    Runs c (expect k message >>= f) R E := by
  intro hc
  by_cases h : c.current.kind = k
  · exact step (expect_of_eq h message) (Cursor.reads_advance hc (h ▸ hk)) (hyes h) hc
  · exact stop (expect_of_ne h message) (hno h) hc

theorem accept {f : Bool → Parser β} (hk : k ≠ .endOfInput)
    (hyes : c.current.kind = k → Runs c.advance (f true) (fun b v => R b (c.current :: v))
      fun e v => E e (c.current :: v))
    (hno : c.current.kind ≠ k → Runs c (f false) R E) :
    Runs c (accept k >>= f) R E := by
  intro hc
  by_cases h : c.current.kind = k
  · exact step (accept_of_eq h) (Cursor.reads_advance hc (h ▸ hk)) (hyes h) hc
  · exact step (accept_of_ne h) (.refl c) (hno h) hc

theorem checkHeight {f : Unit → Parser β} {limits : Limits} {height : Nat} {t : Token}
    (hQ : ¬limits.height < height → Runs c (f ()) R E)
    (hE : limits.height < height → E ⟨.tooHigh limits.height, some t⟩ [] c c) :
    Runs c (checkHeight limits height t >>= f) R E := by
  by_cases h : limits.height < height
  · refine stop ?_ (hE h)
    rw [Parser.checkHeight, if_pos h]
    rfl
  · exact step (checkHeight_of_not_lt h t) (.refl c) (hQ h)

theorem nested {limits : Limits}
    (hin : ¬limits.depth < c.depth + 1 → Runs c.deeper p (fun a u d => Q a u (leave d))
      fun e u d d' => E e u (leave d) (leave d'))
    (hdeep : limits.depth < c.depth + 1 →
      E ⟨.tooDeep limits.depth, some c.current⟩ [] c c.deeper) :
    Runs c (nested limits p) Q E := by
  intro hc
  unfold Ends
  by_cases h : limits.depth < c.depth + 1
  · rw [nested_of_lt h]
    exact ⟨[], c, .refl c, hdeep h⟩
  · rw [nested_of_not_lt h]
    have hend := hin h hc
    unfold Ends at hend
    cases hp : p c.deeper with
    | ok a d =>
        rw [hp] at hend
        obtain ⟨u, hu, hQ⟩ := hend
        exact ⟨u, hu.leave.1, hQ⟩
    | error e d' =>
        rw [hp] at hend
        obtain ⟨u, d, hu, hE⟩ := hend
        exact ⟨u, Parser.leave d, hu.leave.1, hE⟩

theorem ite_bind {b : Prop} [Decidable b] {p q : Parser α}
    (h : Runs c ((if b then p else q) >>= f) R E) :
    Runs c (if b then p >>= f else q >>= f) R E := by
  split <;> simpa [*] using h

theorem measured {p : Nat → Parser α}
    (h : Runs c (p (4 * (c.after.length + 1) + 8)) Q E) : Runs c (measured p) Q E :=
  h

end Runs

abbrev Yields {α : Type} (c : Cursor) (p : Parser α) (Q : α → List Token → Cursor → Prop) : Prop :=
  Runs c p Q fun _ _ _ _ => True

theorem Runs.yields {α : Type} {c : Cursor} {p : Parser α} {Q Q' : α → List Token → Cursor → Prop}
    {E : SyntaxError → List Token → Cursor → Cursor → Prop} (h : Runs c p Q E)
    (hQ : ∀ a u d, c.Reads u d → Q a u d → Q' a u d) : Yields c p Q' :=
  h.imp hQ fun _ _ _ _ _ _ => trivial

end Parser

end Cmm
