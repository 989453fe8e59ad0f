import Cmm.Proofs.Node.Height
import Cmm.Proofs.Program.Checks
import Cmm.Proofs.Program.RoundTrip

/-!
# What the limits do

The limits cut runs short, and do nothing else: a program that is read within some limits is read
within higher ones too, as the same tree, and no expression of it is too high.
-/

namespace Cmm

/-! ## Runs within limits -/

theorem Parser.Passes.find?_eq_none {tokens : List Token} {checks : List Check}
    {r : EStateM.Result SyntaxError Cursor Program}
    (h : Passes program (Cursor.ofTokens tokens) checks r) {limits : Limits}
    (hdepth : tokens.length < limits.depth) (hheight : tokens.length < limits.height) :
    checks.find? (fun k => k.Exceeds limits) = none := by
  have hrun := h.run limits
  have hruns := runs_program limits (fun _ : True => room_ofTokens hdepth hheight)
    (Cursor.closed_ofTokens tokens)
  cases hfind : checks.find? fun k => k.Exceeds limits with
  | none => rfl
  | some k =>
      rw [hfind] at hrun
      obtain ⟨d, hd⟩ := hrun
      obtain ⟨-, -, -, -, hlimit, -⟩ := hruns.of_error hd
      cases k <;> cases hlimit trivial

theorem Parser.Passes.ofTokens_eq {tokens : List Token} {checks : List Check}
    {r : EStateM.Result SyntaxError Cursor Program}
    (h : Passes program (Cursor.ofTokens tokens) checks r) {unlimited : Limits}
    (hunlimited : program unlimited (Cursor.ofTokens tokens) = r) (limits : Limits) :
    Program.ofTokens limits tokens = match checks.find? fun k => k.Exceeds limits with
      | none => Program.ofTokens unlimited tokens
      | some k => .error (k.error limits) := by
  have hrun := h.run limits
  unfold Program.ofTokens
  cases hfind : checks.find? fun k => k.Exceeds limits with
  | none =>
      rw [hfind] at hrun
      rw [hrun, hunlimited]
  | some k =>
      rw [hfind] at hrun
      obtain ⟨d, hd⟩ := hrun
      rw [hd]

private def minusTokens : List Token :=
  [⟨.keyword .void "void", ⟨1, 1⟩⟩, ⟨.name "f", ⟨1, 6⟩⟩, ⟨.symbol .leftParen "(", ⟨1, 7⟩⟩,
    ⟨.symbol .rightParen ")", ⟨1, 8⟩⟩, ⟨.symbol .leftCurly "\x7b", ⟨1, 10⟩⟩, ⟨.name "x", ⟨1, 11⟩⟩,
    ⟨.symbol .assign "=", ⟨1, 13⟩⟩, ⟨.symbol .minus "-", ⟨1, 15⟩⟩, ⟨.symbol .minus "-", ⟨1, 17⟩⟩,
    ⟨.name "y", ⟨1, 18⟩⟩, ⟨.symbol .semicolon ";", ⟨1, 19⟩⟩, ⟨.symbol .rightCurly "\x7d", ⟨1, 20⟩⟩]

private def negated : Program :=
  ⟨[.functionDecl ⟨.void, ⟨"f", ⟨1, 6⟩⟩, ⟨[], ⟨1, 7⟩⟩, ⟨.mk ⟨[], ⟨1, 11⟩⟩
    [.assign ⟨.name ⟨"x", ⟨1, 11⟩⟩, .unary .minus (.unary .minus (.loc (.name ⟨"y", ⟨1, 18⟩⟩))
      ⟨1, 17⟩) ⟨1, 15⟩, ⟨1, 13⟩⟩ ⟨1, 11⟩] ⟨1, 11⟩, ⟨1, 10⟩⟩, ⟨1, 1⟩⟩], ⟨1, 1⟩⟩

end Cmm
