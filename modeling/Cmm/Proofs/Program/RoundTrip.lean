import Cmm.Proofs.Node.Unplaced
import Cmm.Proofs.Program.Acceptance
import Cmm.Proofs.Program.Complete
import Cmm.Proofs.Program.Origin
import Cmm.Source

/-!
# Printing and reading again

The text of a program that was read is scanned without errors and warnings and read as the same
program, unless the parentheses that the printer adds nest too deeply.
-/

namespace Cmm

theorem Lexeme.Scannable.plain {l : Lexeme} (h : l.Scannable) : l.plain.Scannable := by
  cases l with
  | keyword | symbol | endOfInput => trivial
  | name | number | string => exact h

theorem scannable_of_mem_closeInput {tokens : List Token} (h : ∀ t ∈ tokens, t.lexeme.Scannable) :
    ∀ t ∈ closeInput tokens, t.lexeme.Scannable := by
  unfold closeInput
  split
  · simp [Token.endOfInput, Lexeme.Scannable]
  · split
    · exact h
    · rw [List.forall_mem_append]
      exact ⟨h, by simp [Token.endOfInput, Lexeme.Scannable]⟩

theorem Site.BuiltFrom.scannable {limits : Limits} {ls : List Lexeme} {depth : Nat} {site : Site}
    (h : site.BuiltFrom limits ls depth) (hls : ∀ l ∈ ls, l.Scannable) : site.Scannable := by
  cases site with
  | name id => exact hls _ h
  | expression e => exact fun x hx => hls x (h.leaves hx)
  | block => trivial

/-- The nesting of a printed expression, bounded by its height, leaves room to read it. -/
theorem Site.BuiltFrom.hasRoom {limits : Limits} {ls : List Lexeme} {depth : Nat} {site : Site}
    (h : site.BuiltFrom limits ls depth)
    (hdepth : ∀ e, site = .expression e → (depth + 3 * e.height - 2 : Int) ≤ limits.depth) :
    site.HasRoom limits depth := by
  cases site with
  | name id => trivial
  | expression e =>
      have hnesting := e.nesting_printed_le
      have hroom := hdepth e rfl
      exact ⟨by omega, h.height⟩
  | block => exact h

theorem Program.ofTokens_eq_ok_iff {limits : Limits} {tokens : List Token} {p : Program} :
    ofTokens limits tokens = .ok p ↔
      ∃ d, Parser.program limits (Cursor.ofTokens tokens) = .ok p d := by
  unfold ofTokens
  cases Parser.program limits (Cursor.ofTokens tokens) <;> simp

theorem Program.ofText_eq_ok_iff {limits : Limits} {source : String} {p : Program} :
    ofText limits source = .ok p ↔ ∃ tokens, (Scan.ofText source.toList).result = .ok tokens ∧
      ofTokens limits tokens = .ok p := by
  unfold ofText
  cases (Scan.ofText source.toList).result with
  | error e =>
      constructor
      · intro h
        cases h
      · rintro ⟨tokens, hresult, -⟩
        cases hresult
  | ok tokens =>
      change (ofTokens limits tokens).mapError SourceError.parsing = .ok p ↔ _
      constructor
      · intro h
        cases htokens : ofTokens limits tokens with
        | ok q =>
            rw [htokens] at h
            cases h
            exact ⟨tokens, rfl, htokens⟩
        | error e =>
            rw [htokens] at h
            cases h
      · rintro ⟨_, ⟨⟩, htokens⟩
        rw [htokens]
        rfl

/-- What stands in a program comes from the tokens of its text, and these can be scanned. -/
theorem Program.exists_builtFrom {limits : Limits} {source : String} {p : Program}
    (h : ofText limits source = .ok p) :
    ∃ ls, AllBuiltFrom limits ls p.sites ∧ ∀ l ∈ ls, l.Scannable := by
  obtain ⟨tokens, hscan, hparse⟩ := ofText_eq_ok_iff.1 h
  obtain ⟨d, hrun⟩ := ofTokens_eq_ok_iff.1 hparse
  obtain ⟨u, hu, hsites⟩ := (Parser.yields_sites_program _ (Cursor.depth_ofTokens tokens)
    (Cursor.closed_ofTokens tokens)).of_ok hrun
  refine ⟨u.map Token.plain, hsites, List.forall_mem_map.2 fun t ht => ?_⟩
  have hmem : t ∈ closeInput tokens := by
    rw [← Cursor.ahead_ofTokens, hu.ahead]
    exact List.mem_append_left _ ht
  exact (scannable_of_mem_closeInput (scannable_of_result hscan) t hmem).plain

/-- A text that spells a program for which there is room is read as the program. -/
theorem Program.exists_ofText {limits : Limits} {text : String} {p : Program} {next : Char → Prop}
    (hspelled : Spelled text.toList p.lexemes next) (hroom : AllHaveRoom limits p.sites) :
    ∃ q, ofText limits text = .ok q ∧ q.toNode.sameAs p.toNode = true := by
  obtain ⟨-, -, u, finish, hresult, hplain, hinside⟩ := scan_of_spelled hspelled
  obtain ⟨d, hd, hend⟩ := Cursor.exists_reads_ofTokens [Token.endOfInput finish] hinside
  have hgives := Parser.gives_program p ⟨u, hd, hplain⟩ (Cursor.depth_ofTokens _) hroom hend
  obtain ⟨q, hrun, hq⟩ := hgives.ok (Parser.runs_program limits (fun h : False => h.elim))
    (fun _ _ _ _ h => h.1.ne_exhausted) (Cursor.closed_ofTokens _)
  exact ⟨q, ofText_eq_ok_iff.2 ⟨_, hresult, ofTokens_eq_ok_iff.2 ⟨d, hrun⟩⟩, hq⟩

/-- A program that was read prints without faults as long as every indentation is an index.  If
each expression of height `h` that is no part of another one and stands in `b` blocks has
`b + 3 * h - 2` within the depth limit, then the text is scanned without errors and warnings, is
read within the same limits as the same program up to positions, and this prints the same text
again.  With the limits that are set by default, only more than 27 blocks around an expression can
break that bound. -/
theorem print_round_trip (limits : Limits) (source : String) (p : Program) (tab indent : Int)
    (hp : Program.ofText limits source = .ok p) :
    (¬Layout.Fits (p.toNode.items tab indent) →
      (p.toNode.print tab indent).fault = some .indentation) ∧
    (Layout.Fits (p.toNode.items tab indent) →
      (∀ b e, (b, Site.expression e) ∈ p.sites → (b + 3 * e.height - 2 : Int) ≤ limits.depth) →
      ∃ text, p.toNode.print tab indent = ⟨text, none⟩ ∧
        (Scan.ofText text.toList).errors = [] ∧ (Scan.ofText text.toList).warnings = [] ∧
        ∃ q, Program.ofText limits text = .ok q ∧ q.toNode.sameAs p.toNode = true ∧
          q.toNode.print tab indent = ⟨text, none⟩) ∧
    (limits = {} → (∀ b e, (b, Site.expression e) ∈ p.sites → b ≤ 27) →
      ∀ b e, (b, Site.expression e) ∈ p.sites → (b + 3 * e.height - 2 : Int) ≤ limits.depth) := by
  obtain ⟨ls, hsites, hscannable⟩ := Program.exists_builtFrom hp
  have hspells := spells_program tab indent p fun x hx => (hsites x hx).scannable hscannable
  refine ⟨hspells.write_of_not_fits, fun hfits hdepth => ?_, ?_⟩
  · have hroom : AllHaveRoom limits p.sites := fun x hx =>
      (hsites x hx).hasRoom fun e he => hdepth x.1 e (he ▸ hx)
    have hprint : p.toNode.print tab indent = _ := hspells.write hfits
    have hspelled := hspells.spelled
    generalize htext : String.ofList (Layout.chars (p.toNode.items tab indent)) = text at hprint
    rw [← String.toList_ofList (l := Layout.chars _), htext] at hspelled
    obtain ⟨herrors, hwarnings, -⟩ := scan_of_spelled hspelled
    obtain ⟨q, hq, hsame⟩ := Program.exists_ofText hspelled hroom
    exact ⟨text, hprint, herrors, hwarnings, q, hq, hsame,
      (Node.print_eq_of_sameAs hsame tab indent).trans hprint⟩
  · rintro rfl hblocks b e he
    have hb := hblocks b e he
    have hheight : 1 < e.height → (e.height : Int) ≤ 75 := (hsites _ he).height
    change (b + 3 * e.height - 2 : Int) ≤ 250
    omega

private def twoMinuses : Expr :=
  .unary .minus (.unary .minus (.loc (.name ⟨"y", ⟨1, 19⟩⟩)) ⟨1, 18⟩) ⟨1, 16⟩

private def spacedTokens : List Token :=
  [⟨.keyword .void "void", ⟨1, 1⟩⟩, ⟨.name "f", ⟨1, 6⟩⟩, ⟨.symbol .leftParen "(", ⟨1, 7⟩⟩,
    ⟨.symbol .rightParen ")", ⟨1, 8⟩⟩, ⟨.symbol .leftCurly "\x7b", ⟨1, 10⟩⟩, ⟨.name "x", ⟨1, 12⟩⟩,
    ⟨.symbol .assign "=", ⟨1, 14⟩⟩, ⟨.symbol .minus "-", ⟨1, 16⟩⟩, ⟨.symbol .minus "-", ⟨1, 18⟩⟩,
    ⟨.name "y", ⟨1, 19⟩⟩, ⟨.symbol .semicolon ";", ⟨1, 20⟩⟩, ⟨.symbol .rightCurly "\x7d", ⟨1, 22⟩⟩,
    .endOfInput ⟨1, 23⟩]

private def minusProgram : Program :=
  ⟨[.functionDecl ⟨.void, ⟨"f", ⟨1, 6⟩⟩, ⟨[], ⟨1, 7⟩⟩, ⟨.mk ⟨[], ⟨1, 12⟩⟩
    [.assign ⟨.name ⟨"x", ⟨1, 12⟩⟩, twoMinuses, ⟨1, 14⟩⟩ ⟨1, 12⟩] ⟨1, 12⟩, ⟨1, 10⟩⟩, ⟨1, 1⟩⟩],
    .start⟩

theorem print_round_trip_of_minuses : ∃ p q : Program,
    Program.ofText {} "void f() \x7b x = - -y; \x7d" = .ok p ∧
      p.toNode.print 4 0 = ⟨"void f() \x7b\n    x = -(-y);\n\x7d\n\n", none⟩ ∧
      Program.ofText {} "void f() \x7b\n    x = -(-y);\n\x7d\n\n" = .ok q ∧
      q.toNode.sameAs p.toNode = true := by
  have hscan : (Scan.ofText "void f() \x7b x = - -y; \x7d".toList).result.toOption =
      some spacedTokens := by
    decide +kernel
  have hresult : (Scan.ofText "void f() \x7b x = - -y; \x7d".toList).result = .ok spacedTokens := by
    generalize (Scan.ofText "void f() \x7b x = - -y; \x7d".toList).result = result at hscan ⊢
    cases result with
    | ok tokens => exact congrArg Except.ok (Option.some.inj hscan)
    | error e => cases hscan
  have hp : Program.ofText {} "void f() \x7b x = - -y; \x7d" = .ok minusProgram :=
    Program.ofText_eq_ok_iff.2 ⟨spacedTokens, hresult, rfl⟩
  have hprint : minusProgram.toNode.print 4 0 =
      ⟨"void f() \x7b\n    x = -(-y);\n\x7d\n\n", none⟩ := by decide
  have hfits : Layout.Fits (minusProgram.toNode.items 4 0) := by
    refine Classical.byContradiction fun h => ?_
    have hfault := (print_round_trip {} _ minusProgram 4 0 hp).1 h
    rw [hprint] at hfault
    cases hfault
  have hdepth : ∀ b e, (b, Site.expression e) ∈ minusProgram.sites →
      (b + 3 * e.height - 2 : Int) ≤ 250 := by
    intro b e he
    have he : (b, Site.expression e) ∈ [(0, Site.name ⟨"f", ⟨1, 6⟩⟩), (1, .block),
        (1, .expression (.assign (.name ⟨"x", ⟨1, 12⟩⟩) twoMinuses ⟨1, 14⟩))] := he
    obtain ⟨rfl, rfl⟩ : b = 1 ∧ e = .assign (.name ⟨"x", ⟨1, 12⟩⟩) twoMinuses ⟨1, 14⟩ := by
      simpa using he
    decide
  obtain ⟨text, htext, -, -, q, hq, hsame, -⟩ :=
    (print_round_trip {} _ minusProgram 4 0 hp).2.1 hfits hdepth
  obtain rfl : _ = text := congrArg Layout.Printed.text (hprint.symm.trans htext)
  exact ⟨minusProgram, q, hp, hprint, hq, hsame⟩

end Cmm
