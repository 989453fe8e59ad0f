import Cmm.Proofs.Program.Kinds
import Cmm.Proofs.Token.Concatenation

/-!
# Reading two programs in a row

The declarations of a program are read as they are with whatever behind them, and what is behind them
is read as it is on its own.
-/

namespace Cmm

def SyntaxError.shift (lines : Int) (e : SyntaxError) : SyntaxError :=
  ⟨e.cause, e.token.map (Token.shift lines)⟩

def Token.Shifted (lines : Int) (t u : Token) : Prop := u = t.shift lines

theorem SyntaxError.Alike.eq_shift {lines : Int} {e e' : SyntaxError}
    (h : e.Alike (Token.Shifted lines) e') : e' = e.shift lines := by
  obtain ⟨cause, t⟩ := e
  obtain ⟨cause', t'⟩ := e'
  obtain ⟨rfl, htoken⟩ := h
  cases htoken with
  | none => rfl
  | some h => rw [SyntaxError.shift, Option.map_some, h]

namespace Parser

variable {limits : Limits} {S : Overlap} {c c' d : Cursor} {m : Nat}

theorem bind_of_eq {α β : Type} {p q : Parser α} {f : α → Parser β} (h : p c = q d) :
    (p >>= f) c = (q >>= f) d := by
  cases hq : q d with
  | ok a c' => rw [bind_of_ok (h.trans hq), bind_of_ok hq]
  | error e c' => rw [bind_of_error (h.trans hq), bind_of_error hq]

theorem length_lt_of_declarationsIn {xs : List Decl}
    (h : declarationsIn limits m c = .ok xs c') : xs.length < m := by
  induction m generalizing c xs with
  | zero => cases h
  | succ m ih =>
      obtain ⟨b, c₁, -, h⟩ := exists_of_bind_ok h
      cases b with
      | true =>
          cases h
          exact Nat.succ_pos m
      | false =>
          obtain ⟨x, c₂, -, h⟩ := exists_of_bind_ok h
          obtain ⟨xs, c₃, hxs, h⟩ := exists_of_bind_ok h
          cases h
          exact Nat.succ_lt_succ (ih hxs)

theorem declarationsIn_of_ne (hc : c.current.kind ≠ .endOfInput) :
    declarationsIn limits (m + 1) c =
      (do return (← declaration limits) :: (← declarationsIn limits m)) c := by
  change (if decide (c.current.kind = .endOfInput) = true then _ else _ : Parser _) c = _
  rw [if_neg (by simpa using hc)]

/-- Declarations that are read in front of the end of the input are read in front of other tokens
as well, and what comes there is read next. -/
theorem declarationsIn_front (hrest : S.rest.length = 1) {xs : List Decl} (hcd : S.Beside c d)
    (h : declarationsIn limits m c = .ok xs c') (n : Nat) :
    Exhausts (declarationsIn limits (n + xs.length)) d ∨
      ∃ ys d', Built.Alike S.Pairs xs ys ∧ S.Beside c' d' ∧
        declarationsIn limits (n + xs.length) d =
          (do return ys ++ (← declarationsIn limits n)) d' := by
  induction m generalizing c d xs with
  | zero => cases h
  | succ m ih =>
      by_cases hc : c.current.kind = .endOfInput
      · change (if decide (c.current.kind = .endOfInput) = true then _ else _ : Parser _) c = _ at h
        rw [if_pos (by simpa using hc)] at h
        cases h
        right
        refine ⟨[], d, List.Forall₂.nil, hcd, ?_⟩
        simp
      · rw [declarationsIn_of_ne hc] at h
        obtain ⟨x, c₁, hx, h⟩ := exists_of_bind_ok h
        obtain ⟨xs, c₂, hxs, h⟩ := exists_of_bind_ok h
        cases h
        have hinside : S.Inside c d := by
          refine hcd.cases.resolve_left fun hpast => ?_
          have hafter := Cursor.after_ne_nil hpast.closed hc
          have hlength := hpast.length
          rw [Cursor.length_ahead, hrest] at hlength
          exact hafter (List.length_eq_zero_iff.1 (by omega))
        have hd : d.current.kind ≠ .endOfInput := hinside.kind ▸ hc
        rw [List.length_cons, ← Nat.add_assoc]
        unfold Exhausts Ends
        rw [declarationsIn_of_ne hd]
        rcases (agree_declaration.inside hinside).of_ok hx with
          hpast | hex | ⟨y, d₁, hy, hxy, hbeside⟩
        · have hlength := hpast.length
          rw [Cursor.length_ahead, hrest] at hlength
          omega
        · exact .inl hex.bind
        · rw [bind_of_ok hy]
          rcases ih hbeside hxs with hex | ⟨ys, d₂, hys, hbeside, hrun⟩
          · exact .inl hex.bind
          · refine .inr ⟨y :: ys, d₂, .cons hxy hys, hbeside, ?_⟩
            rw [bind_of_eq hrun, bind_assoc]
            rfl

end Parser

theorem Cursor.Reads.ahead_end {c d : Cursor} {u v : List Token} (h : c.Reads v d)
    (hd : d.current.kind = .endOfInput) (hu : ∀ t ∈ u, t.kind ≠ .endOfInput) {p : Position}
    (hc : c.ahead = u ++ [.endOfInput p]) : d.ahead = [.endOfInput p] := by
  have hdrop := congrArg (List.dropWhile (·.kind ≠ .endOfInput)) (h.ahead.symm.trans hc)
  rw [List.dropWhile_append_of_pos (by simpa using h.inside),
    List.dropWhile_append_of_pos (by simpa using hu)] at hdrop
  rw [Cursor.ahead, List.dropWhile_cons_of_neg (by simpa using hd)] at hdrop
  exact hdrop

def Overlap.inFront (p : Position) (other : List Token) (hother : other ≠ []) : Overlap :=
  .common [.endOfInput p] other fun h => absurd h hother

namespace Parser

/-- A program that is read up to the end of the input is read in front of other tokens as well, and
the declarations among these are read on from there. -/
theorem program_front (limits : Limits) {c c' d : Cursor} {u v : List Token} {p : Position}
    {first : Program} (hu : ∀ t ∈ u, t.kind ≠ .endOfInput) (hv : v ≠ [])
    (hdepth : c.depth = d.depth) (hc : c.ahead = u ++ [.endOfInput p]) (hd : d.ahead = u ++ v)
    (hd' : ¬Exhausts (program limits) d) (h : program limits c = .ok first c') :
    ∃ (ys : List Decl) (n : Nat) (d' : Cursor),
      ys.map Decl.toNode = first.decls.map Decl.toNode ∧ d'.depth = c.depth ∧ d'.ahead = v ∧
      program limits d =
        (do return Program.mk (ys ++ (← declarationsIn limits n)) d.current.position) d' := by
  have hclosed : c.Closed := by
    rw [Cursor.Closed, Cursor.kinds, hc, List.map_append, List.getLast?_append]
    rfl
  obtain ⟨w, hreads, hend, -⟩ := (runs_program limits (fun h : False => h.elim) hclosed).of_ok h
  change (measured (declarationsIn limits) >>= fun decls => pure ⟨decls, _⟩ : Parser Program) c =
    _ at h
  obtain ⟨decls, c₁, hdecls, h⟩ := exists_of_bind_ok h
  cases h
  have hlast := hreads.ahead_end hend hu hc
  have hcd : (Overlap.inFront p v hv).Beside c d :=
    ⟨hclosed, hdepth, u, u, List.forall₂_same.2 fun _ _ => rfl, hc, hd⟩
  -- the run over more tokens has steps for these declarations and for others behind them
  have hsteps : decls.length ≤ 4 * (d.after.length + 1) + 8 := by
    have hlength := congrArg List.length hc
    have hlength' := congrArg List.length hd
    have hlt := length_lt_of_declarationsIn hdecls
    have hpos := List.length_pos_iff.2 hv
    simp only [Cursor.length_ahead, List.length_append, List.length_singleton] at hlength hlength'
    omega
  obtain ⟨n, hn⟩ := Nat.exists_eq_add_of_le' hsteps
  have hprogram : program limits d =
      (do return Program.mk (← declarationsIn limits (n + decls.length)) d.current.position) d := by
    rw [← hn]
    rfl
  rcases declarationsIn_front rfl hcd hdecls n with hex | ⟨ys, d', hys, hbeside, hrun⟩
  · unfold Exhausts Ends at hd'
    rw [hprogram] at hd'
    exact absurd hex.bind hd'
  · obtain ⟨a, b, hab, ha, hb⟩ := hbeside.ahead
    obtain rfl : a = [] := by
      rw [hlast] at ha
      exact List.self_eq_append_left.1 ha
    cases hab
    refine ⟨ys, n, d', ?_, hbeside.depth.symm.trans hreads.depth, hb, ?_⟩
    · have hnodes : List.Forall₂ (· = ·) (decls.map Decl.toNode) (ys.map Decl.toNode) := by
        rw [List.forall₂_map_left_iff, List.forall₂_map_right_iff]
        exact hys.imp fun _ _ h => Node.Alike.eq h
      rw [List.forall₂_eq_eq_eq] at hnodes
      exact hnodes.symm
    · rw [hprogram, bind_of_eq hrun, bind_assoc]
      rfl

end Parser

theorem closeInput_of_closed {tokens : List Token}
    (h : (tokens.map Token.kind).getLast? = some .endOfInput) : closeInput tokens = tokens := by
  rw [List.getLast?_map] at h
  obtain ⟨last, hlast, hkind⟩ := Option.map_eq_some_iff.1 h
  rw [closeInput, hlast]
  exact if_pos hkind

namespace Parser

theorem program_eq (limits : Limits) (c : Cursor) : program limits c =
    (do return Program.mk (← measured (declarationsIn limits)) c.current.position) c :=
  rfl

theorem not_exhausts_declarations (limits : Limits) (tokens : List Token) :
    ¬Exhausts (measured (declarationsIn limits)) (Cursor.ofTokens tokens) := by
  intro hex
  apply not_exhausts_program limits tokens
  have hprogram := Exhausts.bind
    (f := fun decls => pure (Program.mk decls (Cursor.ofTokens tokens).current.position)) hex
  unfold Exhausts Ends at hprogram ⊢
  rwa [program_eq]

theorem sameEnd_shift (limits : Limits) {d : Cursor} {others : List Token} {n : Nat} {lines : Int}
    (hothers : (others.map Token.kind).getLast? = some .endOfInput) (hdepth : d.depth = 0)
    (hahead : d.ahead = others.map (Token.shift lines))
    (hd : ¬Exhausts (declarationsIn limits n) d) :
    Agree.SameEnd (.whole (Token.Shifted lines) fun h => h ▸ rfl)
      (measured (declarationsIn limits) (Cursor.ofTokens others)) (declarationsIn limits n d) := by
  refine (Agree.measured_left fun _ => agree_declarationsIn).sameEnd rfl ?_ ?_ hd
  · refine ⟨Cursor.closed_ofTokens others, ?_, others, others.map (Token.shift lines), ?_, ?_, ?_⟩
    · rw [Cursor.depth_ofTokens, hdepth]
    · rw [List.forall₂_map_right_iff]
      exact List.forall₂_same.2 fun _ _ => rfl
    · rw [Cursor.ahead_ofTokens, closeInput_of_closed hothers]
      exact (List.append_nil _).symm
    · rw [hahead]
      exact (List.append_nil _).symm
  · exact not_exhausts_declarations limits others

end Parser

/-- The declarations of two lists of tokens, the first without its end and the second moved down. -/
theorem Program.ofTokens_append (limits : Limits) {u : List Token} {p : Position} {first : Program}
    (hu : ∀ t ∈ u, t.kind ≠ .endOfInput)
    (hfirst : ofTokens limits (u ++ [.endOfInput p]) = .ok first)
    {others : List Token} (hothers : (others.map Token.kind).getLast? = some .endOfInput)
    (lines : Int) :
    match ofTokens limits others with
    | .ok second => ∃ whole more,
      ofTokens limits (u ++ others.map (Token.shift lines)) = .ok whole ∧
        whole.decls.map Decl.toNode = first.decls.map Decl.toNode ++ more ∧
        Node.AllAlike (Token.Shifted lines) (second.decls.map Decl.toNode) more
    | .error e =>
      ofTokens limits (u ++ others.map (Token.shift lines)) = .error (e.shift lines) := by
  have hkinds : (others.map (Token.shift lines)).map Token.kind = others.map Token.kind := by
    rw [List.map_map]
    rfl
  have hmoved : others.map (Token.shift lines) ≠ [] := by
    intro hnil
    rw [List.map_eq_nil_iff.1 hnil] at hothers
    cases hothers
  have hclosed : closeInput (u ++ [.endOfInput p]) = u ++ [.endOfInput p] := by
    apply closeInput_of_closed
    simp [Token.endOfInput, Token.kind, Lexeme.kind]
  have hclosed' : closeInput (u ++ others.map (Token.shift lines)) =
      u ++ others.map (Token.shift lines) := by
    apply closeInput_of_closed
    rw [List.map_append, List.getLast?_append, hkinds, hothers, Option.some_or]
  have hexhausts := Parser.not_exhausts_program limits (u ++ others.map (Token.shift lines))
  unfold ofTokens at hfirst ⊢
  cases hrun : Parser.program limits (Cursor.ofTokens (u ++ [.endOfInput p])) with
  | error e c' =>
      rw [hrun] at hfirst
      cases hfirst
  | ok q c' =>
      rw [hrun] at hfirst
      cases hfirst
      obtain ⟨ys, n, d', hys, hdepth, hahead, hwhole⟩ := Parser.program_front limits hu hmoved
        (by rw [Cursor.depth_ofTokens, Cursor.depth_ofTokens])
        ((Cursor.ahead_ofTokens _).trans hclosed) ((Cursor.ahead_ofTokens _).trans hclosed')
        hexhausts hrun
      have hends := Parser.sameEnd_shift limits (n := n) hothers
        (hdepth.trans (Cursor.depth_ofTokens _)) hahead fun hex => by
          unfold Parser.Exhausts Parser.Ends at hexhausts
          rw [hwhole] at hexhausts
          exact hexhausts hex.bind
      rw [hwhole, Parser.program_eq]
      generalize hback : Parser.measured (Parser.declarationsIn limits) (Cursor.ofTokens others) = r,
        hbehind : Parser.declarationsIn limits n d' = r' at hends
      cases hends with
      | ok hmore hcd =>
          rw [Parser.bind_of_ok hback, Parser.bind_of_ok hbehind]
          refine ⟨_, _, rfl, ?_, allAlike_map hmore⟩
          rw [List.map_append, hys]
      | error he hcd =>
          rw [Parser.bind_of_error hback, Parser.bind_of_error hbehind]
          exact congrArg Except.error he.eq_shift

end Cmm
