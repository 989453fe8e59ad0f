import Cmm.Proofs.Expr.Soundness
import Cmm.Proofs.Parser.Complete

/-!
# What is written is read

An expression that is written with all the parentheses it needs is read back, in front of any token
that it does not go on with.  The operands on the left come first, while the loop over the operators
is still to run; so what is shown of an expression on the left is that the loop goes on behind it.
-/

namespace Cmm

namespace Written

theorem locGoesOn_eq_false (w : Written) {k : Kind}
    (h : k ∉ [.symbol .dot, .symbol .assign, .symbol .leftParen]) : w.locGoesOn k = false := by
  unfold locGoesOn
  split
  · rfl
  · simpa using h
  · simp_all

theorem goesOn_eq_false (w : Written) {k : Kind} (hop : BinaryOp.ofKind? k = none)
    (h : k ∉ [.symbol .dot, .symbol .assign, .symbol .leftParen]) : w.goesOn k = false := by
  rw [goesOn, hop, w.locGoesOn_eq_false h]
  rfl

end Written

namespace Parser

variable {limits : Limits} {c d e : Cursor}

theorem exists_keyword {t : Token} {word : Keyword} (h : t.kind = .keyword word) :
    ∃ text, t.lexeme = .keyword word text := by
  unfold Token.kind at h
  cases hl : t.lexeme <;> simp_all [Lexeme.kind]

theorem exists_symbol {t : Token} {sign : Symbol} (h : t.kind = .symbol sign) :
    ∃ text, t.lexeme = .symbol sign text := by
  unfold Token.kind at h
  cases hl : t.lexeme <;> simp_all [Lexeme.kind]

/-! ## Names and locations -/

theorem gives_name {text : String} {ls : List Lexeme} (h : c.Spells (.name text :: ls) d)
    (message : String) :
    Gives c (name message) c.advance fun id => id.unplaced = ⟨text, .start⟩ := by
  obtain ⟨hplain, -, -⟩ := h.cons
  refine .current ?_
  rw [Token.plain_eq_name_iff.1 hplain]
  exact .advance (.pure rfl)

theorem gives_location_then {P : Loc → Prop} (l : Loc) (hl : c.Spells l.lexemes d)
    (hheight : limits.Admits l.height)
    (hthen : ∀ steps a, a.unplaced = l.unplaced → Gives d (fields limits steps a) e P) :
    Gives c (location limits) e P := by
  induction l generalizing d e with
  | name id =>
      obtain ⟨-, -, hnil⟩ := hl.cons
      obtain rfl := hnil.nil
      refine .bind (gives_name hl _) fun a ha => .measured fun steps => hthen steps _ ?_
      rw [Loc.unplaced, Loc.unplaced, ha, Name.unplaced]
  | field l id p ih =>
      obtain ⟨d₁, hpath, hfield⟩ := hl.append
      obtain ⟨hdot, -, hname⟩ := hfield.cons
      obtain ⟨-, -, hnil⟩ := hname.cons
      obtain rfl := hnil.nil
      refine ih hpath (hheight.mono (Nat.le_add_left _ _)) fun steps a ha => ?_
      cases steps with
      | zero => exact .exhausted
      | succ steps =>
          have hsame : a.height = l.height := by
            rw [← a.height_unplaced, ha, l.height_unplaced]
          refine .current (.accept (Token.plain_eq_ofSymbol_iff.1 hdot) ?_)
          refine .bind (gives_name hname _) fun b hb => .checkHeight ?_ ?_ (hthen steps _ ?_)
          · have := a.one_le_height
            simp only [Loc.height]
            omega
          · rw [Loc.height, hsame]
            exact hheight
          · rw [Loc.unplaced, Loc.unplaced, ha, hb, Name.unplaced]

theorem gives_location (l : Loc) (hl : c.Spells l.lexemes d) (hheight : limits.Admits l.height)
    (hdot : d.current.kind ≠ .symbol .dot) :
    Gives c (location limits) d fun a => a.unplaced = l.unplaced := by
  refine gives_location_then l hl hheight fun steps a ha => ?_
  cases steps with
  | zero => exact .exhausted
  | succ steps => exact .current (.refuse hdot (.pure ha))

theorem starts_location (l : Loc) (hl : c.Spells l.lexemes d) :
    (∃ text, c.current.lexeme = .name text) ∧
      (c.kindAhead? 1 = some (.symbol .dot) ∨
        c.kindAhead? 1 = some d.current.kind ∧ ∃ id, l = .name id) := by
  induction l generalizing d with
  | name id =>
      have hahead := hl.kindAhead?_one
      obtain ⟨hname, -, hnil⟩ := hl.cons
      obtain rfl := hnil.nil
      exact ⟨⟨id.text, Token.plain_eq_name_iff.1 hname⟩, .inr ⟨hahead, id, rfl⟩⟩
  | field l id p ih =>
      obtain ⟨d₁, hpath, hfield⟩ := hl.append
      obtain ⟨hdot, -, -⟩ := hfield.cons
      obtain ⟨hname, hahead | ⟨hahead, -⟩⟩ := ih hpath
      · exact ⟨hname, .inl hahead⟩
      · rw [Token.plain_eq_ofSymbol_iff.1 hdot] at hahead
        exact ⟨hname, .inl hahead⟩

theorem starts_call {callee : String} {args : List Written}
    (hw : c.Spells (Written.call callee args).lexemes d) :
    c.current.lexeme = .name callee ∧ c.kindAhead? 1 = some (.symbol .leftParen) := by
  have hahead := hw.kindAhead?_one
  obtain ⟨hname, -, hw'⟩ := hw.cons
  obtain ⟨hopen, -, -⟩ := hw'.cons
  rw [Token.plain_eq_ofSymbol_iff.1 hopen] at hahead
  exact ⟨Token.plain_eq_name_iff.1 hname, hahead⟩

/-! ## Expressions -/

/-- An expression is read with its tree, and on the left of operators the loop goes on behind it. -/
structure Readable (limits : Limits) (w : Written) : Prop where
  unary : ∀ {c d : Cursor}, w.Proper → w.isBinary = false → c.Spells w.lexemes d →
    w.StandsBefore d.current.kind → (c.depth + w.nesting : Nat) ≤ limits.depth →
    limits.Admits w.tree.height → ∀ steps,
      Gives c (unaryIn limits steps) d fun a => a.unplaced = w.tree
  head : ∀ {c d e : Cursor} {minimum : Int} {P : Expr → Prop}, w.Proper → minimum ≤ w.level →
    c.Spells w.lexemes d → w.StandsBefore d.current.kind →
    (c.depth + w.nesting : Nat) ≤ limits.depth → limits.Admits w.tree.height →
    (∀ steps a, a.unplaced = w.tree → Gives d (operatorsIn limits steps minimum a) e P) →
    ∀ steps, Gives c (do
      let left ← unaryIn limits steps
      operatorsIn limits steps minimum left) e P

namespace Readable

variable {w : Written}

theorem of_unary
    (h : ∀ {c d : Cursor}, w.Proper → c.Spells w.lexemes d → w.StandsBefore d.current.kind →
      (c.depth + w.nesting : Nat) ≤ limits.depth → limits.Admits w.tree.height → ∀ steps,
        Gives c (unaryIn limits steps) d fun a => a.unplaced = w.tree) : Readable limits w where
  unary hproper _ := h hproper
  head hproper _ hw hstands hdepth hheight hthen steps :=
    .bind (h hproper hw hstands hdepth hheight steps) fun a ha => hthen steps a ha

theorem of_primary
    (h : ∀ {c d : Cursor}, w.Proper → c.Spells w.lexemes d → w.StandsBefore d.current.kind →
      (c.depth + w.nesting : Nat) ≤ limits.depth → limits.Admits w.tree.height →
        UnaryOp.ofKind? c.current.kind = none ∧ ∀ steps,
          Gives c (primaryIn limits steps) d fun a => a.unplaced = w.tree) :
    Readable limits w := by
  refine of_unary fun hproper hw hstands hdepth hheight steps => ?_
  obtain ⟨hop, hgives⟩ := h hproper hw hstands hdepth hheight
  cases steps with
  | zero => exact .exhausted
  | succ steps =>
      refine .current ?_
      rw [hop]
      exact hgives steps

theorem binary (h : Readable limits w) {minimum : Int} (hproper : w.Proper)
    (hlevel : minimum ≤ w.level) (hw : c.Spells w.lexemes d)
    (hfinal : w.Final minimum d.current.kind)
    (hdepth : (c.depth + 1 + w.nesting : Nat) ≤ limits.depth)
    (hheight : limits.Admits w.tree.height) (steps : Nat) :
    Gives c (binaryIn limits steps minimum) d fun a => a.unplaced = w.tree := by
  cases steps with
  | zero => exact .exhausted
  | succ steps =>
      refine .nested (by omega) ?_
      refine h.head hproper hlevel hw.deeper (hfinal.standsBefore hlevel) hdepth hheight ?_ steps
      intro steps a ha
      cases steps with
      | zero => exact .exhausted
      | succ steps =>
          refine .current ?_
          split
          · exact .pure ha
          · rename_i op hop
            rw [if_pos (hfinal.weaker op hop).1]
            exact .pure ha

theorem whole (h : Readable limits w) (hproper : w.Proper) (hw : c.Spells w.lexemes d)
    (hends : w.goesOn d.current.kind = false)
    (hdepth : (c.depth + (1 + w.nesting) : Nat) ≤ limits.depth)
    (hheight : limits.Admits w.tree.height) (steps : Nat) :
    Gives c (binaryIn limits steps 1) d fun a => a.unplaced = w.tree := by
  rw [← Nat.add_assoc] at hdepth
  exact h.binary hproper w.one_le_level hw (Written.final_one_iff.2 hends) hdepth hheight steps

theorem number (value : Int) : Readable limits (.number value) := by
  refine of_primary fun {c d} _ hw _ _ _ => ?_
  obtain ⟨hplain, -, hnil⟩ := hw.cons
  obtain rfl := hnil.nil
  have hl := Token.plain_eq_number_iff.1 hplain
  refine ⟨by rw [Token.kind, hl]; rfl, fun steps => ?_⟩
  cases steps with
  | zero => exact .exhausted
  | succ steps =>
      refine .current ?_
      rw [hl]
      exact .advance (.pure rfl)

theorem string (raw : String) : Readable limits (.string raw) := by
  refine of_primary fun {c d} _ hw _ _ _ => ?_
  obtain ⟨hplain, -, hnil⟩ := hw.cons
  obtain rfl := hnil.nil
  have hl := Token.plain_eq_string_iff.1 hplain
  refine ⟨by rw [Token.kind, hl]; rfl, fun steps => ?_⟩
  cases steps with
  | zero => exact .exhausted
  | succ steps =>
      refine .current ?_
      rw [hl]
      exact .advance (.pure rfl)

theorem truth (value : Bool) : Readable limits (.truth value) := by
  refine of_primary fun {c d} _ hw _ _ _ => ?_
  obtain ⟨hplain, -, hnil⟩ := hw.cons
  obtain rfl := hnil.nil
  obtain ⟨text, hl⟩ : ∃ text, c.current.lexeme =
      .keyword (if value then .trueWord else .falseWord) text :=
    exists_keyword (Token.plain_eq_ofKeyword_iff.1 hplain)
  refine ⟨by rw [Token.kind, hl]; rfl, fun steps => ?_⟩
  cases steps with
  | zero => exact .exhausted
  | succ steps =>
      refine .current ?_
      rw [hl]
      cases value <;> exact .advance (.pure rfl)

theorem parens (h : Readable limits w) : Readable limits (.parens w) := by
  refine of_primary fun {c d} hproper hw _ hdepth hheight => ?_
  obtain ⟨hopen, -, hw⟩ := hw.cons
  obtain ⟨d₁, hinner, hw⟩ := hw.append
  obtain ⟨hclose, -, hnil⟩ := hw.cons
  obtain rfl := hnil.nil
  have hopen := Token.plain_eq_ofSymbol_iff.1 hopen
  have hclose := Token.plain_eq_ofSymbol_iff.1 hclose
  obtain ⟨text, hl⟩ := exists_symbol hopen
  refine ⟨by rw [hopen]; rfl, fun steps => ?_⟩
  cases steps with
  | zero => exact .exhausted
  | succ steps =>
      refine .current ?_
      rw [hl]
      refine .advance (.bind (h.whole hproper hinner ?_ ?_ hheight steps)
        fun a ha => .expect hclose (.pure ha))
      · rw [hclose]
        exact w.goesOn_eq_false rfl (by simp)
      · rw [Cursor.depth_advance]
        exact hdepth

theorem loc (l : Loc) : Readable limits (.loc l) := by
  refine of_primary fun {c d} _ hw hstands _ hheight => ?_
  obtain ⟨⟨text, hl⟩, hahead⟩ := starts_location l hw
  refine ⟨by rw [Token.kind, hl]; rfl, fun steps => ?_⟩
  obtain ⟨hdot, hassign⟩ : d.current.kind ≠ .symbol .dot ∧ d.current.kind ≠ .symbol .assign := by
    have hends := hstands.ends
    cases l <;> simp_all [Written.locGoesOn, Written.lastLoc?]
  have hparen : c.kindAhead? 1 ≠ some (.symbol .leftParen) := by
    rcases hahead with hahead | ⟨hahead, id, rfl⟩
    · simp [hahead]
    · have hends := hstands.ends
      simp_all [Written.locGoesOn, Written.lastLoc?]
  cases steps with
  | zero => exact .exhausted
  | succ steps =>
      refine .current ?_
      rw [hl]
      refine .get ?_
      rw [if_neg hparen]
      rw [Written.tree, Expr.height, Loc.height_unplaced] at hheight
      refine .bind (gives_location l hw hheight hdot) fun a ha => .at? ?_
      rw [if_neg (by simpa using hassign)]
      exact .pure (by rw [Expr.unplaced, ha, Written.tree])

theorem assignment (h : Readable limits w) {lhs a : Loc} (ha : a.unplaced = lhs.unplaced)
    (hproper : w.Proper) (hsign : c.current.kind = .symbol .assign)
    (hw : c.advance.Spells w.lexemes d) (hstands : (Written.assign lhs w).StandsBefore d.current.kind)
    (hdepth : (c.depth + (1 + w.nesting) : Nat) ≤ limits.depth)
    (hheight : limits.Admits (Written.assign lhs w).tree.height) (steps : Nat) :
    Gives c (assignmentIn limits steps a) d fun b =>
      b.toExpr.unplaced = (Written.assign lhs w).tree := by
  cases steps with
  | zero => exact .exhausted
  | succ steps =>
      have hheights : (Written.assign lhs w).tree.height = 1 + max lhs.height w.tree.height := by
        simp only [Written.tree, Expr.height, Loc.height_unplaced]
      have hfinal : w.Final 1 d.current.kind :=
        ⟨fun op hop => (by cases (hstands.fits op hop).2), hstands.ends⟩
      refine .expect hsign (.bind (h.binary hproper w.one_le_level hw hfinal ?_
        (hheight.mono ?_) steps) fun b hb => .checkHeight ?_ ?_ (.pure ?_))
      · rw [Cursor.depth_advance]
        omega
      · omega
      · have := a.one_le_height
        simp only [Assignment.toExpr, Expr.height]
        omega
      · rw [Assignment.toExpr, Expr.height, ← a.height_unplaced, ha, ← b.height_unplaced, hb,
          lhs.height_unplaced, ← hheights]
        exact hheight
      · rw [Assignment.toExpr, Expr.unplaced, ha, hb, Written.tree]

theorem assign (lhs : Loc) (h : Readable limits w) : Readable limits (.assign lhs w) := by
  refine of_primary fun {c d} hproper hw hstands hdepth hheight => ?_
  obtain ⟨d₁, hlhs, hw⟩ := hw.append
  rw [Written.nesting, ← hlhs.depth] at hdepth
  obtain ⟨hsign, -, hw⟩ := hw.cons
  have hsign := Token.plain_eq_ofSymbol_iff.1 hsign
  obtain ⟨⟨text, hl⟩, hahead⟩ := starts_location lhs hlhs
  refine ⟨by rw [Token.kind, hl]; rfl, fun steps => ?_⟩
  have hparen : c.kindAhead? 1 ≠ some (.symbol .leftParen) := by
    rcases hahead with hahead | ⟨hahead, -⟩ <;> simp [hahead, hsign]
  have hlow : limits.Admits lhs.height := hheight.mono (by
    simp only [Written.tree, Expr.height, Loc.height_unplaced]
    omega)
  cases steps with
  | zero => exact .exhausted
  | succ steps =>
      refine .current ?_
      rw [hl]
      refine .get ?_
      rw [if_neg hparen]
      refine .bind (gives_location lhs hlhs hlow (by simp [hsign])) fun a ha => .at? ?_
      rw [if_pos (by simpa using hsign)]
      refine .bind (h.assignment ha hproper hsign hw hstands hdepth hheight steps) fun b hb => .pure hb

theorem arguments {ws : List Written} (h : ∀ w' ∈ w :: ws, Readable limits w')
    (hproper : Written.AllProper (w :: ws))
    (hw : c.Spells (Written.argumentLexemes (w :: ws)) d)
    (hclose : d.current.kind = .symbol .rightParen)
    (hdepth : (c.depth + Written.argumentNesting (w :: ws) : Nat) ≤ limits.depth)
    (hheight : limits.Admits (Expr.greatestHeight (Written.trees (w :: ws)))) (steps : Nat) :
    Gives c (argumentsIn limits steps) d fun es =>
      Expr.allUnplaced es = Written.trees (w :: ws) := by
  induction ws generalizing w c steps with
  | nil =>
      obtain ⟨d₁, hfirst, hnil⟩ := hw.append
      obtain rfl := hnil.nil
      cases steps with
      | zero => exact .exhausted
      | succ steps =>
          refine .bind ((h w (by simp)).whole hproper.1 hfirst ?_ ?_ (hheight.mono ?_) steps)
            fun a ha => .refuse (by simp [hclose]) (.pure ?_)
          · rw [hclose]
            exact w.goesOn_eq_false rfl (by simp)
          · simp only [Written.argumentNesting] at hdepth
            omega
          · simp only [Written.trees, Expr.greatestHeight]
            omega
          · rw [Expr.allUnplaced, ha, Written.trees, Expr.allUnplaced, Written.trees]
  | cons w' ws ih =>
      obtain ⟨d₁, hw, hmore⟩ := hw.append
      obtain ⟨hcomma, -, hmore⟩ := hmore.cons
      have hcomma := Token.plain_eq_ofSymbol_iff.1 hcomma
      simp only [Written.argumentNesting] at hdepth
      simp only [Written.trees, Expr.greatestHeight] at hheight
      cases steps with
      | zero => exact .exhausted
      | succ steps =>
          refine .bind ((h w (by simp)).whole hproper.1 hw ?_ ?_ (hheight.mono ?_) steps)
            fun a ha => .accept hcomma ?_
          · rw [hcomma]
            exact w.goesOn_eq_false rfl (by simp)
          · omega
          · omega
          · refine .bind (ih (fun v hv => h v (by simp_all)) hproper.2 hmore ?_
              (hheight.mono ?_) steps) fun as has => .pure ?_
            · rw [Cursor.depth_advance, hw.depth, Written.argumentNesting]
              omega
            · simp only [Written.trees, Expr.greatestHeight]
              omega
            · rw [Expr.allUnplaced, ha, has]
              rfl

theorem arguments_or_none {ws : List Written} (h : ∀ w ∈ ws, Readable limits w)
    (hproper : Written.AllProper ws) (hw : c.Spells (Written.argumentLexemes ws) d)
    (hclose : d.current.kind = .symbol .rightParen)
    (hdepth : (c.depth + Written.argumentNesting ws : Nat) ≤ limits.depth)
    (hheight : limits.Admits (Expr.greatestHeight (Written.trees ws))) (steps : Nat) :
    Gives c (if decide (c.current.kind = .symbol .rightParen) = true then Pure.pure []
      else argumentsIn limits steps) d fun es => Expr.allUnplaced es = Written.trees ws := by
  cases ws with
  | nil =>
      obtain rfl := hw.nil
      rw [if_pos (by simpa using hclose)]
      exact .pure rfl
  | cons w ws =>
      obtain ⟨l, ls, hl, hk⟩ := w.exists_lexemes_eq_cons
      have hw' := hw
      rw [Written.argumentLexemes, hl, List.cons_append] at hw'
      obtain ⟨hplain, -, -⟩ := hw'.cons
      rw [if_neg]
      · exact arguments h hproper hw hclose hdepth hheight steps
      · rw [← Token.kind_plain, hplain]
        simp_all

theorem callAlone {callee : String} {args : List Written} (h : ∀ w ∈ args, Readable limits w)
    (hproper : Written.AllProper args) (hw : c.Spells (Written.call callee args).lexemes d)
    (hdepth : (c.depth + (Written.call callee args).nesting : Nat) ≤ limits.depth)
    (hheight : limits.Admits (Written.call callee args).tree.height) (steps : Nat) :
    Gives c (callIn limits steps) d fun b => b.toExpr.unplaced = (Written.call callee args).tree := by
  obtain ⟨-, -, hw'⟩ := hw.cons
  obtain ⟨hopen, -, hrest⟩ := hw'.cons
  obtain ⟨d₁, hargs, hlast⟩ := hrest.append
  obtain ⟨hclose, -, hnil⟩ := hlast.cons
  obtain rfl := hnil.nil
  have hopen := Token.plain_eq_ofSymbol_iff.1 hopen
  have hclose := Token.plain_eq_ofSymbol_iff.1 hclose
  cases steps with
  | zero => exact .exhausted
  | succ steps =>
      have hheights : (Written.call callee args).tree.height =
          1 + max 1 (Expr.greatestHeight (Written.trees args)) := by
        rw [Written.tree, Expr.height]
      refine .bind (gives_name hw _) fun id hid => .expect hopen (.at? ?_)
      refine .ite_bind (.bind (arguments_or_none h hproper hargs hclose ?_ (hheight.mono ?_) steps)
        fun es hes => ?_)
      · rw [Cursor.depth_advance, Cursor.depth_advance]
        exact hdepth
      · omega
      · have htree : (Expr.call id es c.advance.current.position).unplaced =
            (Written.call callee args).tree := by
          rw [Expr.unplaced, hid, hes, Written.tree]
        refine .expect hclose (.checkHeight ?_ ?_ (.pure htree))
        · simp only [Call.toExpr, Expr.height]
          omega
        · rw [Call.toExpr, ← Expr.height_unplaced, htree]
          exact hheight

theorem call (callee : String) {args : List Written} (h : ∀ w ∈ args, Readable limits w) :
    Readable limits (.call callee args) := by
  refine of_primary fun {c d} hproper hw _ hdepth hheight => ?_
  obtain ⟨hl, hahead⟩ := starts_call hw
  refine ⟨by rw [Token.kind, hl]; rfl, fun steps => ?_⟩
  cases steps with
  | zero => exact .exhausted
  | succ steps =>
      refine .current ?_
      rw [hl]
      refine .get ?_
      rw [if_pos hahead]
      exact .bind (callAlone h hproper hw hdepth hheight steps) fun b hb => .pure hb

theorem unaryOp (op : UnaryOp) (h : Readable limits w) : Readable limits (.unary op w) := by
  refine of_unary fun {c d} hproper hw hstands hdepth hheight steps => ?_
  obtain ⟨hop, -, hw⟩ := hw.cons
  have hop := Token.plain_eq_ofSymbol_iff.1 hop
  cases steps with
  | zero => exact .exhausted
  | succ steps =>
      have hstands' : w.StandsBefore d.current.kind := by
        refine ⟨fun op' hop' => ?_, hstands.ends⟩
        rw [Written.level_of_not_isBinary hproper.2]
        exact hstands.fits op' hop'
      refine .current ?_
      rw [hop, op.ofKind?_symbol]
      have hoperand : Gives c.advance (nested limits (unaryIn limits steps)) d fun a =>
          a.unplaced = w.tree := by
        rw [Written.nesting] at hdepth
        refine .nested ?_ (h.unary hproper.1 hproper.2 hw.deeper hstands' ?_ (hheight.mono ?_) steps)
        · rw [Cursor.depth_advance]
          omega
        · change ((c.advance.depth + 1 + w.nesting : Nat) : Int) ≤ limits.depth
          rw [Cursor.depth_advance, Nat.add_assoc]
          exact hdepth
        · simp only [Written.tree, Expr.height]
          omega
      refine .advance (.bind hoperand fun a ha => ?_)
      have htree : (Expr.unary op a c.current.position).unplaced = (Written.unary op w).tree := by
        rw [Expr.unplaced, ha, Written.tree]
      refine .checkHeight ?_ ?_ (.pure htree)
      · have := a.one_le_height
        simp only [Expr.height]
        omega
      · rw [← Expr.height_unplaced, htree]
        exact hheight

theorem binaryOp (op : BinaryOp) {left right : Written} (hleft : Readable limits left)
    (hright : Readable limits right) : Readable limits (.binary op left right) where
  unary _ hbinary := by cases hbinary
  head {c d e minimum P} hproper hlevel hw hstands hdepth hheight hthen steps := by
    obtain ⟨d₁, hwleft, hw⟩ := hw.append
    obtain ⟨hop, -, hw⟩ := hw.cons
    have hop := Token.plain_eq_ofSymbol_iff.1 hop
    obtain ⟨hproperleft, hproperright, hlevelleft, hlevelright, hends⟩ := hproper
    simp only [Written.nesting] at hdepth
    simp only [Written.level] at hlevel
    have hheights : (Written.binary op left right).tree.height =
        1 + max left.tree.height right.tree.height := by
      rw [Written.tree, Expr.height]
    have hstandsleft : left.StandsBefore d₁.current.kind := by
      refine ⟨fun op' hop' => ?_, ?_⟩
      · rw [hop, op.ofKind?_symbol, Option.some.injEq] at hop'
        exact ⟨hop' ▸ hlevelleft, hends⟩
      · rw [hop]
        exact left.locGoesOn_eq_false (by cases op <;> decide)
    have hfinal : right.Final (op.precedence + 1) d.current.kind :=
      ⟨fun op' hop' => ⟨Int.lt_add_one_of_le (hstands.fits op' hop').1,
        (hstands.fits op' hop').2⟩, hstands.ends⟩
    refine hleft.head hproperleft (by omega) hwleft hstandsleft (by omega)
      (hheight.mono (by omega)) (fun steps a ha => ?_) steps
    cases steps with
    | zero => exact .exhausted
    | succ steps =>
        refine .current ?_
        rw [hop, op.ofKind?_symbol]
        change Gives d₁ (if op.precedence < minimum then _ else _) e P
        rw [if_neg (by omega)]
        refine .advance (.bind (hright.binary hproperright (by omega) hw hfinal ?_
          (hheight.mono (by omega)) steps) fun b hb => ?_)
        · rw [Cursor.depth_advance, hwleft.depth]
          omega
        · have htree : (Expr.binary op a b d₁.current.position).unplaced =
              (Written.binary op left right).tree := by
            rw [Expr.unplaced, ha, hb, Written.tree]
          refine .checkHeight ?_ ?_ (hthen steps _ htree)
          · have := a.one_le_height
            simp only [Expr.height]
            omega
          · rw [← Expr.height_unplaced, htree]
            exact hheight

end Readable

mutual

/-- Every expression is readable, with the parentheses that it needs. -/
theorem readable (limits : Limits) : ∀ w : Written, Readable limits w
  | .number value => .number value
  | .string raw => .string raw
  | .truth value => .truth value
  | .loc l => .loc l
  | .assign lhs rhs => .assign lhs (readable limits rhs)
  | .call callee args => .call callee (allReadable limits args)
  | .unary op operand => .unaryOp op (readable limits operand)
  | .binary op left right => .binaryOp op (readable limits left) (readable limits right)
  | .parens inner => .parens (readable limits inner)

theorem allReadable (limits : Limits) : ∀ ws : List Written, ∀ w ∈ ws, Readable limits w
  | [] => by simp
  | w :: ws => by
    intro v hv
    rcases List.mem_cons.1 hv with hw | hv
    · exact hw ▸ readable limits w
    · exact allReadable limits ws v hv

end

theorem gives_expression {w : Written} (hproper : w.Proper)
    (hw : c.Spells w.lexemes d) (hends : w.goesOn d.current.kind = false)
    (hdepth : (c.depth + (1 + w.nesting) : Nat) ≤ limits.depth)
    (hheight : limits.Admits w.tree.height) :
    Gives c (expression limits) d fun a => a.unplaced = w.tree :=
  .measured fun steps => (readable limits w).whole hproper hw hends hdepth hheight steps

end Parser

end Cmm
