import Cmm.Proofs.Expr.Written
import Cmm.Proofs.Parser.Outcome

/-!
# What is read as an expression

The tokens that are read as an expression spell it, with all the parentheses that are needed.  The
loop over the operators carries the invariant: what stands on the left may stand there without
parentheses, whichever operator comes next.
-/

namespace Cmm

namespace Written

/-- An expression ends in front of a token of a kind: if that is an operator, it is too weak for a
minimum, and not an operator on the right side of an assignment. -/
structure Final (w : Written) (minimum : Int) (k : Kind) : Prop where
  weaker : ∀ op, BinaryOp.ofKind? k = some op →
    op.precedence < minimum ∧ w.endsInAssignment = false
  ends : w.locGoesOn k = false

/-- An expression may stand in front of a token of a kind: if that is an operator, as its left
operand. -/
structure StandsBefore (w : Written) (k : Kind) : Prop where
  fits : ∀ op, BinaryOp.ofKind? k = some op →
    op.precedence ≤ w.level ∧ w.endsInAssignment = false
  ends : w.locGoesOn k = false

theorem goesOn_eq_false_iff {w : Written} {k : Kind} :
    w.goesOn k = false ↔ BinaryOp.ofKind? k = none ∧ w.locGoesOn k = false := by
  rw [goesOn, Bool.or_eq_false_iff, Option.isSome_eq_false_iff, Option.isNone_iff_eq_none]

/-- No operator follows what is read as far as it can be. -/
theorem Final.ofKind?_eq_none {w : Written} {k : Kind} (h : w.Final 1 k) :
    BinaryOp.ofKind? k = none := by
  cases hop : BinaryOp.ofKind? k with
  | none => rfl
  | some op =>
      have hlt := (h.weaker op hop).1
      have hle := one_le_precedence op
      omega

theorem final_one_iff {w : Written} {k : Kind} : w.Final 1 k ↔ w.goesOn k = false := by
  rw [goesOn_eq_false_iff]
  exact ⟨fun h => ⟨h.ofKind?_eq_none, h.ends⟩,
    fun h => ⟨fun op hop => by simp [h.1] at hop, h.2⟩⟩

theorem final_of_closed {w : Written} (hassign : w.endsInAssignment = false)
    (hloc : w.lastLoc? = none) (k : Kind) : w.Final 7 k where
  weaker op _ := ⟨precedence_lt_seven op, hassign⟩
  ends := by rw [locGoesOn, hloc]

theorem Final.standsBefore {w : Written} {minimum : Int} {k : Kind} (h : w.Final minimum k)
    (hlevel : minimum ≤ w.level) : w.StandsBefore k where
  fits op hop := ⟨by have := (h.weaker op hop).1; omega, (h.weaker op hop).2⟩
  ends := h.ends

end Written

namespace Parser

variable {limits : Limits} {steps : Nat} {c : Cursor}

/-! ## Names and locations -/

theorem yields_name (c : Cursor) (message : String) :
    Yields c (name message) fun id u _ => u.map Token.plain = [.name id.text] := by
  refine .current ?_
  split
  · rename_i text h
    refine .advance (by simp [Token.kind, Lexeme.kind, h]) (.pure ?_)
    simp [Token.plain, h, Lexeme.plain]
  · exact .fail trivial

theorem yields_fields (c : Cursor) (l : Loc) :
    Yields c (fields limits steps l) fun l' u d =>
      l'.lexemes = l.lexemes ++ u.map Token.plain ∧ d.current.kind ≠ .symbol .dot := by
  induction steps generalizing c l with
  | zero => exact .exhausted trivial
  | succ steps ih =>
      refine .current (.accept (by simp) ?_ ?_)
      · intro hdot
        refine .bind (yields_name _ _) fun id u d _ hid => ?_
        refine .checkHeight (fun _ => ?_) fun _ => trivial
        refine (ih d _).yields ?_
        rintro l' v e - ⟨hl', hend⟩
        have hplain : c.current.plain = .ofSymbol .dot := Token.plain_eq_ofSymbol_iff.2 hdot
        exact ⟨by simp [hl', Loc.lexemes, hid, hplain], hend⟩
      · exact fun hdot => .pure ⟨by simp, hdot⟩

theorem yields_location (c : Cursor) :
    Yields c (location limits) fun l u d =>
      u.map Token.plain = l.lexemes ∧ d.current.kind ≠ .symbol .dot := by
  refine .bind (yields_name _ _) fun id u d _ hid => ?_
  refine .measured ((yields_fields d _).yields ?_)
  rintro l v e - ⟨hl, hend⟩
  exact ⟨by rw [hl, Loc.lexemes, List.map_append, hid], hend⟩

/-- What is read as a location, and not as a call, goes on neither with a dot nor, if it is a
name, with a parenthesis. -/
theorem final_loc {d : Cursor} {l : Loc} {u : List Token} (hu : c.Reads u d)
    (hl : u.map Token.plain = l.lexemes) (hparen : c.kindAhead? 1 ≠ some (.symbol .leftParen))
    (hdot : d.current.kind ≠ .symbol .dot) (hassign : d.current.kind ≠ .symbol .assign) :
    (Written.loc l).Final 7 d.current.kind where
  weaker op _ := ⟨Written.precedence_lt_seven op, rfl⟩
  ends := by
    cases l with
    | name id =>
        obtain ⟨t, rfl, -⟩ := List.map_eq_singleton_iff.1 hl
        have hahead : c.kindAhead? 1 = _ := hu.kindAhead?_length
        rw [hahead] at hparen
        simpa [Written.locGoesOn, Written.lastLoc?] using
          ⟨hdot, hassign, fun h => hparen (congrArg some h)⟩
    | field l id p => simpa [Written.locGoesOn, Written.lastLoc?] using ⟨hdot, hassign⟩

/-! ## Expressions -/

/-- What is read with a number of steps is what was written. -/
structure ExprSound (limits : Limits) (steps : Nat) : Prop where
  binary : ∀ (c : Cursor) (minimum : Int), minimum ≤ 7 →
    Yields c (binaryIn limits steps minimum) fun e u d => ∃ w : Written,
      w.Writes e u ∧ minimum ≤ w.level ∧ w.Final minimum d.current.kind
  operators : ∀ (c : Cursor) (minimum : Int) (left : Expr) (w : Written) (u : List Token),
    w.Writes left u → minimum ≤ w.level → w.StandsBefore c.current.kind →
    Yields c (operatorsIn limits steps minimum left) fun e v d => ∃ w : Written,
      w.Writes e (u ++ v) ∧ minimum ≤ w.level ∧ w.Final minimum d.current.kind
  unary : ∀ c : Cursor, Yields c (unaryIn limits steps) fun e u d => ∃ w : Written,
    w.Writes e u ∧ w.isBinary = false ∧ w.Final 7 d.current.kind
  primary : ∀ c : Cursor, Yields c (primaryIn limits steps) fun e u d => ∃ w : Written,
    w.Writes e u ∧ w.isBinary = false ∧ w.Final 7 d.current.kind
  assignment : ∀ (c : Cursor) (lhs : Loc) (u : List Token), u.map Token.plain = lhs.lexemes →
    Yields c (assignmentIn limits steps lhs) fun a v d => ∃ w : Written,
      w.Writes a.toExpr (u ++ v) ∧ w.isBinary = false ∧ w.Final 7 d.current.kind
  call : ∀ c : Cursor, Yields c (callIn limits steps) fun e u d => ∃ w : Written,
    w.Writes e.toExpr u ∧ w.isBinary = false ∧ w.Final 7 d.current.kind
  arguments : ∀ c : Cursor, Yields c (argumentsIn limits steps) fun es u _ => ∃ w ws,
    Written.AllProper (w :: ws) ∧ Written.trees (w :: ws) = Expr.allUnplaced es ∧
      u.map Token.plain = Written.argumentLexemes (w :: ws)

namespace ExprSound

theorem zero : ExprSound limits 0 where
  binary _ _ _ := .exhausted trivial
  operators _ _ _ _ _ _ _ _ := .exhausted trivial
  unary _ := .exhausted trivial
  primary _ := .exhausted trivial
  assignment _ _ _ _ := .exhausted trivial
  call _ := .exhausted trivial
  arguments _ := .exhausted trivial

variable (h : ExprSound limits steps)

include h

theorem yields_binary (c : Cursor) {minimum : Int} (hmin : minimum ≤ 7) :
    Yields c (binaryIn limits (steps + 1) minimum) fun e u d => ∃ w : Written,
      w.Writes e u ∧ minimum ≤ w.level ∧ w.Final minimum d.current.kind := by
  refine .nested (fun _ => ?_) fun _ => trivial
  refine .bind (h.unary _) ?_
  rintro left u d - ⟨w, hw, hbinary, hfinal⟩
  have hlevel := Written.level_of_not_isBinary hbinary
  exact h.operators d minimum left w u hw (by omega) (hfinal.standsBefore (by omega))

theorem yields_operators (c : Cursor) {minimum : Int} {left : Expr} {w : Written}
    {u : List Token} (hw : w.Writes left u) (hlevel : minimum ≤ w.level)
    (hstands : w.StandsBefore c.current.kind) :
    Yields c (operatorsIn limits (steps + 1) minimum left) fun e v d => ∃ w : Written,
      w.Writes e (u ++ v) ∧ minimum ≤ w.level ∧ w.Final minimum d.current.kind := by
  refine .current ?_
  split
  · rename_i hop
    refine .pure ⟨w, by rwa [List.append_nil], hlevel, fun op hop' => ?_, hstands.ends⟩
    simp [hop] at hop'
  rename_i op hop
  have hsymbol := BinaryOp.eq_symbol_of_ofKind? hop
  have hplain : c.current.plain = .ofSymbol op.symbol := Token.plain_eq_ofSymbol_iff.2 hsymbol
  obtain ⟨hleft, hends⟩ := hstands.fits op hop
  split
  · rename_i hlt
    refine .pure ⟨w, by rwa [List.append_nil], hlevel, fun op' hop' => ⟨?_, hends⟩, hstands.ends⟩
    obtain rfl := Option.some.inj (hop.symm.trans hop')
    exact hlt
  · rename_i hle
    refine .advance (by simp [hsymbol]) ?_
    have hmin : op.precedence + 1 ≤ 7 := Written.precedence_lt_seven op
    refine .bind (h.binary _ _ hmin) ?_
    rintro right v d - ⟨w', hw', hlevel', hfinal'⟩
    refine .checkHeight (fun _ => ?_) fun _ => trivial
    have hwhole : (Written.binary op w w').Writes (.binary op left right c.current.position)
        (u ++ c.current :: v) :=
      { proper := ⟨hw.proper, hw'.proper, hleft, by omega, hends⟩
        tree := by simp [Written.tree, hw.tree, hw'.tree, Expr.unplaced]
        lexemes := by simp [Written.lexemes, hw.lexemes, hw'.lexemes, hplain] }
    have hnext : (Written.binary op w w').StandsBefore d.current.kind :=
      ⟨fun op' hop' => ⟨Int.lt_add_one_iff.1 (hfinal'.weaker op' hop').1,
        (hfinal'.weaker op' hop').2⟩, hfinal'.ends⟩
    refine (h.operators d minimum _ _ _ hwhole (by simpa [Written.level] using hle) hnext).yields ?_
    rintro e v' d' - ⟨w'', hw'', hrest⟩
    exact ⟨w'', by simpa using hw'', hrest⟩

theorem yields_unary (c : Cursor) :
    Yields c (unaryIn limits (steps + 1)) fun e u d => ∃ w : Written,
      w.Writes e u ∧ w.isBinary = false ∧ w.Final 7 d.current.kind := by
  refine .current ?_
  split
  · exact h.primary c
  · rename_i op hop
    have hsymbol := UnaryOp.eq_symbol_of_ofKind? hop
    have hplain : c.current.plain = .ofSymbol op.symbol := Token.plain_eq_ofSymbol_iff.2 hsymbol
    refine .advance (by simp [hsymbol]) ?_
    have hnested : Yields c.advance (nested limits (unaryIn limits steps)) fun e u d =>
        ∃ w : Written, w.Writes e u ∧ w.isBinary = false ∧ w.Final 7 d.current.kind :=
      .nested (fun _ => h.unary _) fun _ => trivial
    refine .bind hnested ?_
    rintro operand u d - ⟨w, hw, hbinary, hfinal⟩
    refine .checkHeight (fun _ => .pure ⟨.unary op w, ?_, rfl, ?_⟩) fun _ => trivial
    · exact
        { proper := ⟨hw.proper, hbinary⟩
          tree := by simp [Written.tree, hw.tree, Expr.unplaced]
          lexemes := by simp [Written.lexemes, hw.lexemes, hplain] }
    · exact ⟨hfinal.weaker, hfinal.ends⟩

theorem yields_assignment (c : Cursor) {lhs : Loc} {u : List Token}
    (hlhs : u.map Token.plain = lhs.lexemes) :
    Yields c (assignmentIn limits (steps + 1) lhs) fun a v d => ∃ w : Written,
      w.Writes a.toExpr (u ++ v) ∧ w.isBinary = false ∧ w.Final 7 d.current.kind := by
  refine .expect (by simp) (fun hsign => ?_) fun _ => trivial
  have hplain : c.current.plain = .ofSymbol .assign := Token.plain_eq_ofSymbol_iff.2 hsign
  refine .bind (h.binary _ 1 (by omega)) ?_
  rintro rhs v d - ⟨w, hw, -, hfinal⟩
  refine .checkHeight (fun _ => .pure ⟨.assign lhs w, ?_, rfl, fun op hop => ?_, hfinal.ends⟩)
    fun _ => trivial
  · exact
      { proper := hw.proper
        tree := by simp [Written.tree, hw.tree, Assignment.toExpr, Expr.unplaced]
        lexemes := by simp [Written.lexemes, hlhs, hw.lexemes, hplain] }
  · simp [hfinal.ofKind?_eq_none] at hop

theorem yields_arguments (c : Cursor) :
    Yields c (argumentsIn limits (steps + 1)) fun es u _ => ∃ w ws,
      Written.AllProper (w :: ws) ∧ Written.trees (w :: ws) = Expr.allUnplaced es ∧
        u.map Token.plain = Written.argumentLexemes (w :: ws) := by
  refine .bind (h.binary c 1 (by omega)) ?_
  rintro first u d - ⟨w, hw, -, -⟩
  refine .accept (by simp) (fun hcomma => ?_)
    fun _ => .pure ⟨w, [], ⟨hw.proper, trivial⟩, ?_, ?_⟩
  · have hplain : d.current.plain = .ofSymbol .comma := Token.plain_eq_ofSymbol_iff.2 hcomma
    refine .bind (h.arguments _) ?_
    rintro rest v e - ⟨w', ws, hproper, htrees, hlexemes⟩
    rw [Written.argumentLexemes] at hlexemes
    refine .pure ⟨w, w' :: ws, ⟨hw.proper, hproper⟩, ?_, ?_⟩
    · rw [Written.trees, hw.tree, htrees, Expr.allUnplaced]
    · simp [Written.argumentLexemes, Written.moreLexemes, hw.lexemes, hplain, hlexemes]
  · simp [Written.trees, hw.tree, Expr.allUnplaced]
  · simp [Written.argumentLexemes, Written.moreLexemes, hw.lexemes]

theorem yields_call (c : Cursor) :
    Yields c (callIn limits (steps + 1)) fun e u d => ∃ w : Written,
      w.Writes e.toExpr u ∧ w.isBinary = false ∧ w.Final 7 d.current.kind := by
  refine .bind (yields_name c _) fun callee u d _ hcallee => ?_
  refine .expect (by simp) (fun hleft => ?_) fun _ => trivial
  have hleft : d.current.plain = .ofSymbol .leftParen := Token.plain_eq_ofSymbol_iff.2 hleft
  have hargs : Yields d.advance
      (if decide (d.advance.current.kind = .symbol .rightParen) = true then Pure.pure []
        else argumentsIn limits steps)
      fun es v _ => ∃ ws, Written.AllProper ws ∧ Written.trees ws = Expr.allUnplaced es ∧
        v.map Token.plain = Written.argumentLexemes ws := by
    split
    · exact .pure ⟨[], trivial, rfl, rfl⟩
    · refine (h.arguments _).yields ?_
      rintro es v e - ⟨w, ws, hws⟩
      exact ⟨w :: ws, hws⟩
  refine .at? (.ite_bind (.bind hargs ?_))
  rintro es v e - ⟨ws, hproper, htrees, hlexemes⟩
  refine .expect (by simp) (fun hright => ?_) fun _ => trivial
  have hright : e.current.plain = .ofSymbol .rightParen := Token.plain_eq_ofSymbol_iff.2 hright
  refine .checkHeight (fun _ => .pure ⟨.call callee.text ws, ?_, rfl, ?_⟩) fun _ => trivial
  · exact
      { proper := hproper
        tree := by simp [Written.tree, htrees, Call.toExpr, Expr.unplaced, Name.unplaced]
        lexemes := by simp [Written.lexemes, hcallee, hleft, hlexemes, hright] }
  · exact Written.final_of_closed rfl rfl _

theorem yields_primary (c : Cursor) :
    Yields c (primaryIn limits (steps + 1)) fun e u d => ∃ w : Written,
      w.Writes e u ∧ w.isBinary = false ∧ w.Final 7 d.current.kind := by
  have leaf : ∀ (e : Expr) (w : Written), c.current.kind ≠ .endOfInput →
      w.Writes e [c.current] → w.isBinary = false → w.endsInAssignment = false →
      w.lastLoc? = none → Yields c (do advance; return e) fun e u d => ∃ w : Written,
        w.Writes e u ∧ w.isBinary = false ∧ w.Final 7 d.current.kind :=
    fun e w hk hw hbinary hassign hloc =>
      .advance hk (.pure ⟨w, hw, hbinary, Written.final_of_closed hassign hloc _⟩)
  have hkind : c.current.kind = c.current.lexeme.kind := rfl
  have hplain : c.current.plain = c.current.lexeme.plain := rfl
  refine .current ?_
  split
  · rename_i value hl
    exact leaf _ (.number value) (by simp [hkind, hl, Lexeme.kind])
      ⟨trivial, rfl, by simp [hplain, hl, Lexeme.plain, Written.lexemes]⟩ rfl rfl rfl
  · rename_i raw hl
    exact leaf _ (.string raw) (by simp [hkind, hl, Lexeme.kind])
      ⟨trivial, rfl, by simp [hplain, hl, Lexeme.plain, Written.lexemes]⟩ rfl rfl rfl
  · rename_i text hl
    exact leaf _ (.truth true) (by simp [hkind, hl, Lexeme.kind])
      ⟨trivial, rfl, by simp [hplain, hl, Lexeme.plain, Written.lexemes]⟩ rfl rfl rfl
  · rename_i text hl
    exact leaf _ (.truth false) (by simp [hkind, hl, Lexeme.kind])
      ⟨trivial, rfl, by simp [hplain, hl, Lexeme.plain, Written.lexemes]⟩ rfl rfl rfl
  · rename_i text hl
    refine .advance (by simp [hkind, hl, Lexeme.kind]) (.bind (h.binary _ 1 (by omega)) ?_)
    rintro e u d - ⟨w, hw, -, -⟩
    refine .expect (by simp) (fun hright => .pure ⟨.parens w, ?_, rfl, ?_⟩) fun _ => trivial
    · have hright : d.current.plain = .ofSymbol .rightParen :=
        Token.plain_eq_ofSymbol_iff.2 hright
      exact
        { proper := hw.proper
          tree := hw.tree
          lexemes := by simp [Written.lexemes, hw.lexemes, hplain, hl, Lexeme.plain, hright] }
    · exact Written.final_of_closed rfl rfl _
  · refine .get ?_
    split
    · exact .bind (h.call c) fun e u d _ he => .pure (by simpa using he)
    · rename_i hparen
      refine .bind (yields_location c) fun l u d hu hl => .at? ?_
      obtain ⟨hl, hdot⟩ := hl
      split
      · refine .bind (h.assignment d l u hl) ?_
        rintro a v e - ⟨w, hw, hbinary, hfinal⟩
        exact .pure ⟨w, by simpa using hw, hbinary, hfinal⟩
      · rename_i hassign
        have hassign : d.current.kind ≠ .symbol .assign := by simpa using hassign
        refine .pure ⟨.loc l, ?_, rfl, final_loc hu hl hparen hdot hassign⟩
        exact
          { proper := trivial
            tree := rfl
            lexemes := by simpa [Written.lexemes] using hl }
  · exact .fail trivial

theorem succ : ExprSound limits (steps + 1) where
  binary c _ := h.yields_binary c
  operators c _ _ _ _ := h.yields_operators c
  unary c := h.yields_unary c
  primary c := h.yields_primary c
  assignment c _ _ := h.yields_assignment c
  call c := h.yields_call c
  arguments c := h.yields_arguments c

end ExprSound

theorem exprSound (limits : Limits) (steps : Nat) : ExprSound limits steps := by
  induction steps with
  | zero => exact ExprSound.zero
  | succ steps ih => exact ih.succ

/-! ## Heights -/

theorem yields_height_binary (c : Cursor) {minimum : Int} (hmin : minimum ≤ 7) :
    Yields c (binaryIn limits steps minimum) fun e u _ => e.height ≤ u.length := by
  refine ((exprSound limits steps).binary c minimum hmin).yields ?_
  rintro e u d - ⟨w, hw, -⟩
  exact hw.height_le

theorem yields_height_unary (c : Cursor) :
    Yields c (unaryIn limits steps) fun e u _ => e.height ≤ u.length := by
  refine ((exprSound limits steps).unary c).yields ?_
  rintro e u d - ⟨w, hw, -⟩
  exact hw.height_le

theorem yields_height_arguments (c : Cursor) :
    Yields c (argumentsIn limits steps) fun es u _ => Expr.greatestHeight es ≤ u.length := by
  refine ((exprSound limits steps).arguments c).yields ?_
  rintro es u d - ⟨w, ws, -, htrees, hlexemes⟩
  have hle := Written.greatestHeight_trees_le (w :: ws)
  rwa [htrees, Expr.greatestHeight_allUnplaced, ← hlexemes, List.length_map] at hle

theorem yields_height_location (c : Cursor) :
    Yields c (location limits) fun l u _ => l.height ≤ u.length := by
  refine (yields_location c).yields ?_
  rintro l u d - ⟨hl, -⟩
  have hle := l.height_le_length_lexemes
  rwa [← hl, List.length_map] at hle

/-- An assignment is read up to where no operator follows. -/
theorem yields_end_assignment (c : Cursor) (lhs : Loc) :
    Yields c (assignmentIn limits steps lhs) fun _ _ d =>
      BinaryOp.ofKind? d.current.kind = none := by
  cases steps with
  | zero => exact .exhausted trivial
  | succ steps =>
      refine .expect (by simp) (fun _ => ?_) fun _ => trivial
      refine .bind ((exprSound limits steps).binary _ 1 (by omega)) ?_
      rintro rhs v d - ⟨w, -, -, hfinal⟩
      exact .checkHeight (fun _ => .pure hfinal.ofKind?_eq_none) fun _ => trivial

end Parser

end Cmm
