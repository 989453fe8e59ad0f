import Cmm.Proofs.Grammar.Basic

/-!
# Goals

A reader of the grammar that looks at one token kind at a time.  It keeps a list of goals, what is
still to come, and each kind that can come next replaces the first goal that can take it.  Goals
in front of that one have to be optional and are dropped.

The reader is deterministic, whereas the grammar is ambiguous; both have the same sentences.  Here
is one half: whatever meets the goals after a step meets, behind the kind of that step, the goals
before it.  As every goal can be met, no list of goals is a dead end.
-/

namespace Cmm

/-- What can be expected at a place in a program.  The goals named `after…` are the rest of what
began with the kinds already taken. -/
inductive Goal where
  | token (kind : Kind)
  | type
  | decl
  | decls
  | afterDeclName
  | afterStructName
  | varDecl
  | varDecls
  | formals
  | moreFormals
  | stmt
  | stmts
  | elseBranch
  | returned
  | afterStmtName
  /-- What a statement does with the location it begins with. -/
  | update
  /-- The fields of a location. -/
  | fields
  | exp
  /-- The rest of an expression that began with a name. -/
  | afterName
  /-- The rest of an expression that began with a location that has a field. -/
  | afterPath
  /-- The operators that may follow a term. -/
  | afterTerm
  | arguments
  | moreArguments
  deriving DecidableEq, Repr

namespace Goal

abbrev name : Goal := .token .name

abbrev sign (s : Symbol) : Goal := .token (.symbol s)

def block : List Goal := [sign .leftCurly, .varDecls, .stmts, sign .rightCurly]

def expRest? : Kind → Option (List Goal)
  | .number | .string | .keyword .trueWord | .keyword .falseWord => some [.afterTerm]
  | .name => some [.afterName]
  | .symbol .minus | .symbol .not => some [.exp]
  | .symbol .leftParen => some [.exp, sign .rightParen, .afterTerm]
  | _ => none

def operatorRest? (k : Kind) : Option (List Goal) :=
  (BinaryOp.ofKind? k).map fun _ => [.exp]

def pathRest? : Kind → Option (List Goal)
  | .symbol .assign => some [.exp]
  | k => operatorRest? k

def varDeclRest? : Kind → Option (List Goal)
  | .keyword .struct => some [name, name, sign .semicolon]
  | k => if (Primitive.ofKind? k).isSome then some [name, sign .semicolon] else none

def declRest? : Kind → Option (List Goal)
  | .keyword .struct => some [name, .afterStructName]
  | k => if (Primitive.ofKind? k).isSome then some [name, .afterDeclName] else none

def updateRest? : Kind → Option (List Goal)
  | .symbol .assign => some [.exp, sign .semicolon]
  | .symbol .plusPlus | .symbol .minusMinus => some [sign .semicolon]
  | _ => none

def stmtRest? : Kind → Option (List Goal)
  | .keyword .cin => some [sign .read, name, .fields, sign .semicolon]
  | .keyword .cout => some [sign .write, .exp, sign .semicolon]
  | .keyword .ifWord =>
    some ([sign .leftParen, .exp, sign .rightParen] ++ block ++ [.elseBranch])
  | .keyword .whileWord | .keyword .repeatWord =>
    some ([sign .leftParen, .exp, sign .rightParen] ++ block)
  | .keyword .returnWord => some [.returned, sign .semicolon]
  | .name => some [.afterStmtName]
  | _ => none

/-- What a goal leaves to come when a kind is taken for it; none if the kind does not suit. -/
def take? (g : Goal) (k : Kind) : Option (List Goal) :=
  match g with
  | .token kind => if k = kind then some [] else none
  | .type => if (Primitive.ofKind? k).isSome then some [] else none
  | .decl => declRest? k
  | .decls => (declRest? k).map (· ++ [.decls])
  | .afterDeclName =>
    match k with
    | .symbol .semicolon => some []
    | .symbol .leftParen => some ([.formals, sign .rightParen] ++ block)
    | _ => none
  | .afterStructName =>
    match k with
    | .name => some [sign .semicolon]
    | .symbol .leftCurly => some [.varDecl, .varDecls, sign .rightCurly, sign .semicolon]
    | _ => none
  | .varDecl => varDeclRest? k
  | .varDecls => (varDeclRest? k).map (· ++ [.varDecls])
  | .formals => if (Primitive.ofKind? k).isSome then some [name, .moreFormals] else none
  | .moreFormals => if k = .symbol .comma then some [.type, name, .moreFormals] else none
  | .stmt => stmtRest? k
  | .stmts => (stmtRest? k).map (· ++ [.stmts])
  | .elseBranch => if k = .keyword .elseWord then some block else none
  | .returned => expRest? k
  | .afterStmtName =>
    match k with
    | .symbol .leftParen => some [.arguments, sign .rightParen, sign .semicolon]
    | .symbol .dot => some [name, .fields, .update]
    | k => updateRest? k
  | .update => updateRest? k
  | .fields => if k = .symbol .dot then some [name, .fields] else none
  | .exp => expRest? k
  | .afterName =>
    match k with
    | .symbol .leftParen => some [.arguments, sign .rightParen, .afterTerm]
    | .symbol .dot => some [name, .fields, .afterPath]
    | k => pathRest? k
  | .afterPath => pathRest? k
  | .afterTerm => operatorRest? k
  | .arguments => (expRest? k).map (· ++ [.moreArguments])
  | .moreArguments => if k = .symbol .comma then some [.exp, .moreArguments] else none

def isOptional : Goal → Bool
  | .decls | .varDecls | .formals | .moreFormals | .stmts | .elseBranch | .returned | .fields
  | .afterName | .afterPath | .afterTerm | .arguments | .moreArguments => true
  | _ => false

def next : List Goal → Kind → Option (List Goal)
  | [], _ => none
  | g :: goals, k =>
    match g.take? k with
    | some rest => some (rest ++ goals)
    | none => if g.isOptional then next goals k else none

def after : List Goal → List Kind → Option (List Goal)
  | goals, [] => some goals
  | goals, k :: w => (next goals k).bind (after · w)

theorem after_cons (goals : List Goal) (k : Kind) (w : List Kind) :
    after goals (k :: w) = (next goals k).bind (after · w) := rfl

theorem after_append (goals : List Goal) (u v : List Kind) :
    after goals (u ++ v) = (after goals u).bind (after · v) := by
  induction u generalizing goals with
  | nil => rfl
  | cons k u ih =>
      simp only [List.cons_append, after_cons]
      cases next goals k with
      | none => rfl
      | some rest => exact ih rest

theorem after_append_of {goals rest : List Goal} {u : List Kind}
    (h : after goals u = some rest) (v : List Kind) :
    after goals (u ++ v) = after rest v := by
  rw [after_append, h]
  rfl

/-! ## What meets a goal -/

def Met : Goal → List Kind → Prop
  | .token kind, w => w = [kind]
  | .type, w => Derives .type w
  | .decl, w => Derives .decl w
  | .decls, w => Derives (.many .decl) w
  | .afterDeclName, w => ∀ t, Derives .type t → Derives .decl (t ++ .name :: w)
  | .afterStructName, w => Derives .decl (.keyword .struct :: .name :: w)
  | .varDecl, w => Derives .varDecl w
  | .varDecls, w => Derives (.many .varDecl) w
  | .formals, w => Derives .formals (.symbol .leftParen :: (w ++ [.symbol .rightParen]))
  | .moreFormals, w => Derives (.many (.afterComma .formalDecl)) w
  | .stmt, w => Derives .stmt w
  | .stmts, w => Derives (.many .stmt) w
  | .elseBranch, w => w = [] ∨ ∃ b, Derives .block b ∧ w = .keyword .elseWord :: b
  | .returned, w => w = [] ∨ Derives .exp w
  | .afterStmtName, w => Derives .stmt (.name :: w)
  | .update, w => ∀ l, Derives .loc l → Derives .stmt (l ++ w)
  | .fields, w => ∀ l, Derives .loc l → Derives .loc (l ++ w)
  | .exp, w => Derives .exp w
  | .afterName, w => Derives .exp (.name :: w)
  | .afterPath, w => ∀ l, Derives .loc l → Derives .exp (l ++ w)
  | .afterTerm, w => ∀ e, Derives .exp e → Derives .exp (e ++ w)
  | .arguments, w =>
    Derives .call (.name :: .symbol .leftParen :: (w ++ [.symbol .rightParen]))
  | .moreArguments, w => Derives (.many (.afterComma .exp)) w

def AllMet : List Goal → List Kind → Prop
  | [], w => w = []
  | g :: goals, w => ∃ u v, w = u ++ v ∧ g.Met u ∧ AllMet goals v

theorem allMet_append {front back : List Goal} {w : List Kind} :
    AllMet (front ++ back) w ↔ ∃ u v, w = u ++ v ∧ AllMet front u ∧ AllMet back v := by
  induction front generalizing w with
  | nil =>
      constructor
      · exact fun h => ⟨[], w, rfl, rfl, h⟩
      · rintro ⟨u, v, rfl, rfl, h⟩
        exact h
  | cons g front ih =>
      simp only [List.cons_append, AllMet, ih]
      constructor
      · rintro ⟨u, _, rfl, hu, v, w, rfl, hv, hw⟩
        exact ⟨u ++ v, w, by simp, ⟨u, v, rfl, hu, hv⟩, hw⟩
      · rintro ⟨_, w, rfl, ⟨u, v, rfl, hu, hv⟩, hw⟩
        exact ⟨u, v ++ w, by simp, hu, v, w, rfl, hv, hw⟩

@[simp] theorem allMet_nil {w : List Kind} : AllMet [] w ↔ w = [] := Iff.rfl

@[simp] theorem allMet_singleton {g : Goal} {w : List Kind} : AllMet [g] w ↔ g.Met w := by
  constructor
  · rintro ⟨u, v, rfl, hu, rfl⟩
    simpa using hu
  · exact fun h => ⟨w, [], by simp, h, rfl⟩

@[simp] theorem allMet_token {k : Kind} {goals : List Goal} {w : List Kind} :
    AllMet (.token k :: goals) w ↔ ∃ v, w = k :: v ∧ AllMet goals v := by
  constructor
  · rintro ⟨u, v, rfl, rfl, hv⟩
    exact ⟨v, rfl, hv⟩
  · rintro ⟨v, rfl, hv⟩
    exact ⟨[k], v, rfl, rfl, hv⟩

/-! ### The goals that a kind leaves -/

theorem derives_type_of_ofKind? {k : Kind} (h : (Primitive.ofKind? k).isSome) :
    Derives .type [k] := by
  unfold Primitive.ofKind? at h
  split at h
  · exact .int
  · exact .bool
  · exact .void
  · simp at h

private theorem met_block {w : List Kind} (h : AllMet block w) :
    ∃ vs ss, w = .symbol .leftCurly :: (vs ++ ss ++ [.symbol .rightCurly]) ∧
      Derives (.many .varDecl) vs ∧ Derives (.many .stmt) ss := by
  obtain ⟨_, rfl, vs, _, rfl, hvs, ss, _, rfl, hss, hv⟩ := allMet_token.1 h
  obtain rfl := allMet_singleton.1 hv
  exact ⟨vs, ss, by simp, hvs, hss⟩

private theorem met_expRest {k : Kind} {rest : List Goal} {w : List Kind}
    (h : expRest? k = some rest) (hw : AllMet rest w) : Derives .exp (k :: w) := by
  unfold expRest? at h
  split at h <;> cases h
  · exact (allMet_singleton.1 hw) _ (.term .number)
  · exact (allMet_singleton.1 hw) _ (.term .string)
  · exact (allMet_singleton.1 hw) _ (.term .trueWord)
  · exact (allMet_singleton.1 hw) _ (.term .falseWord)
  · exact allMet_singleton.1 hw
  · exact .minus (allMet_singleton.1 hw)
  · exact .not (allMet_singleton.1 hw)
  · obtain ⟨e, w, rfl, he, hw⟩ := hw
    obtain ⟨v, rfl, hv⟩ := allMet_token.1 hw
    simpa using (allMet_singleton.1 hv) _ (.term (.parens he))

private theorem met_operatorRest {k : Kind} {rest : List Goal} {w e : List Kind}
    (h : operatorRest? k = some rest) (hw : AllMet rest w) (he : Derives .exp e) :
    Derives .exp (e ++ k :: w) := by
  obtain ⟨op, hop, rfl⟩ := Option.map_eq_some_iff.1 h
  obtain rfl := BinaryOp.eq_symbol_of_ofKind? hop
  exact .binary op he (allMet_singleton.1 hw)

private theorem met_pathRest {k : Kind} {rest : List Goal} {w l : List Kind}
    (h : pathRest? k = some rest) (hw : AllMet rest w) (hl : Derives .loc l) :
    Derives .exp (l ++ k :: w) := by
  unfold pathRest? at h
  split at h
  · cases h
    exact .assign hl (allMet_singleton.1 hw)
  · exact met_operatorRest h hw (.term (.locTerm hl))

private theorem met_varDeclRest {k : Kind} {rest : List Goal} {w : List Kind}
    (h : varDeclRest? k = some rest) (hw : AllMet rest w) : Derives .varDecl (k :: w) := by
  unfold varDeclRest? at h
  split at h
  · cases h
    obtain ⟨_, rfl, hv⟩ := allMet_token.1 hw
    obtain ⟨_, rfl, hs⟩ := allMet_token.1 hv
    obtain rfl := allMet_singleton.1 hs
    exact .structVar
  · obtain ⟨hk, h⟩ := Option.ite_none_right_eq_some.1 h
    cases h
    obtain ⟨_, rfl, hs⟩ := allMet_token.1 hw
    obtain rfl := allMet_singleton.1 hs
    exact .typeVar (derives_type_of_ofKind? hk)

private theorem met_declRest {k : Kind} {rest : List Goal} {w : List Kind}
    (h : declRest? k = some rest) (hw : AllMet rest w) : Derives .decl (k :: w) := by
  unfold declRest? at h
  split at h
  · cases h
    obtain ⟨_, rfl, hv⟩ := allMet_token.1 hw
    exact allMet_singleton.1 hv
  · obtain ⟨hk, h⟩ := Option.ite_none_right_eq_some.1 h
    cases h
    obtain ⟨_, rfl, hv⟩ := allMet_token.1 hw
    exact (allMet_singleton.1 hv) _ (derives_type_of_ofKind? hk)

private theorem met_updateRest {k : Kind} {rest : List Goal} {w l : List Kind}
    (h : updateRest? k = some rest) (hw : AllMet rest w) (hl : Derives .loc l) :
    Derives .stmt (l ++ k :: w) := by
  unfold updateRest? at h
  split at h <;> cases h
  · obtain ⟨e, _, rfl, he, hs⟩ := hw
    obtain rfl := allMet_singleton.1 hs
    exact .assignment hl he
  · obtain rfl := allMet_singleton.1 hw
    exact .increment hl
  · obtain rfl := allMet_singleton.1 hw
    exact .decrement hl

private theorem met_condition {w : List Kind} (goals : List Goal)
    (h : AllMet ([sign .leftParen, .exp, sign .rightParen] ++ block ++ goals) w) :
    ∃ e b v, w = .symbol .leftParen :: (e ++ .symbol .rightParen :: (b ++ v)) ∧
      Derives .exp e ∧ Derives .block b ∧ AllMet goals v := by
  obtain ⟨u, v, rfl, hu, hv⟩ := allMet_append.1 h
  obtain ⟨c, b, rfl, hc, hb⟩ := allMet_append.1 hu
  obtain ⟨_, rfl, e, _, rfl, he, hs⟩ := allMet_token.1 hc
  obtain rfl := allMet_singleton.1 hs
  obtain ⟨vs, ss, rfl, hvs, hss⟩ := met_block hb
  exact ⟨e, _, v, by simp, he, .block hvs hss, hv⟩

private theorem met_stmtRest {k : Kind} {rest : List Goal} {w : List Kind}
    (h : stmtRest? k = some rest) (hw : AllMet rest w) : Derives .stmt (k :: w) := by
  unfold stmtRest? at h
  split at h <;> cases h
  · obtain ⟨_, rfl, hv⟩ := allMet_token.1 hw
    obtain ⟨_, rfl, l, _, rfl, hl, hs⟩ := allMet_token.1 hv
    obtain rfl := allMet_singleton.1 hs
    exact .read (hl _ .name)
  · obtain ⟨_, rfl, e, _, rfl, he, hs⟩ := allMet_token.1 hw
    obtain rfl := allMet_singleton.1 hs
    exact .write he
  · obtain ⟨e, b, v, rfl, he, hb, hv⟩ := met_condition _ hw
    rcases allMet_singleton.1 hv with rfl | ⟨d, hd, rfl⟩
    · simpa using Derives.ifThen he hb
    · exact .ifElse he hb hd
  · obtain ⟨e, b, v, rfl, he, hb, rfl⟩ := met_condition [] (by simpa using hw)
    simpa using Derives.whileLoop he hb
  · obtain ⟨e, b, v, rfl, he, hb, rfl⟩ := met_condition [] (by simpa using hw)
    simpa using Derives.repeatLoop he hb
  · obtain ⟨u, _, rfl, hu, hs⟩ := hw
    obtain rfl := allMet_singleton.1 hs
    rcases hu with rfl | he
    · exact .returnNothing
    · exact .returnValue he
  · exact allMet_singleton.1 hw

/-- Every step is sound: what meets the goals that a kind leaves meets, behind that kind, the goal
that it was taken for. -/
theorem met_of_take? {g : Goal} {k : Kind} {rest : List Goal} {w : List Kind}
    (h : g.take? k = some rest) (hw : AllMet rest w) : g.Met (k :: w) := by
  cases g with
  | token kind =>
      obtain ⟨hk, hrest⟩ := Option.ite_none_right_eq_some.1 h
      cases hrest
      obtain rfl := allMet_nil.1 hw
      rw [hk]
      rfl
  | type =>
      obtain ⟨hk, h⟩ := Option.ite_none_right_eq_some.1 h
      cases h
      obtain rfl := allMet_nil.1 hw
      exact derives_type_of_ofKind? hk
  | decl => exact met_declRest h hw
  | decls =>
      obtain ⟨r, hr, rfl⟩ := Option.map_eq_some_iff.1 h
      obtain ⟨u, v, rfl, hu, hv⟩ := allMet_append.1 hw
      exact .manyCons (met_declRest hr hu) (allMet_singleton.1 hv)
  | afterDeclName =>
      intro t ht
      simp only [take?] at h
      split at h <;> cases h
      · obtain rfl := allMet_nil.1 hw
        exact .varDecl (.typeVar ht)
      · obtain ⟨f, _, rfl, ⟨f, _, rfl, hf, hp⟩, hb⟩ := allMet_append.1 hw
        obtain rfl := allMet_singleton.1 hp
        obtain ⟨vs, ss, rfl, hvs, hss⟩ := met_block hb
        simpa using Derives.fnDecl (.function ht hf (.fnBody hvs hss))
  | afterStructName =>
      simp only [take?] at h
      split at h <;> cases h
      · obtain rfl := allMet_singleton.1 hw
        exact .varDecl .structVar
      · obtain ⟨v, _, rfl, hv, vs, _, rfl, hvs, hr⟩ := hw
        obtain ⟨_, rfl, hs⟩ := allMet_token.1 hr
        obtain rfl := allMet_singleton.1 hs
        simpa [Met] using Derives.structDecl (.struct hv hvs)
  | varDecl => exact met_varDeclRest h hw
  | varDecls =>
      obtain ⟨r, hr, rfl⟩ := Option.map_eq_some_iff.1 h
      obtain ⟨u, v, rfl, hu, hv⟩ := allMet_append.1 hw
      exact .manyCons (met_varDeclRest hr hu) (allMet_singleton.1 hv)
  | formals =>
      obtain ⟨hk, h⟩ := Option.ite_none_right_eq_some.1 h
      cases h
      obtain ⟨_, rfl, hv⟩ := allMet_token.1 hw
      have hf := Derives.formalDecl (derives_type_of_ofKind? hk)
      simpa [Met] using Derives.someFormals hf (allMet_singleton.1 hv)
  | moreFormals =>
      obtain ⟨rfl, h⟩ := Option.ite_none_right_eq_some.1 h
      cases h
      obtain ⟨t, _, rfl, ht, hn⟩ := hw
      obtain ⟨v, rfl, hv⟩ := allMet_token.1 hn
      have hf := Derives.afterComma (Derives.formalDecl ht)
      simpa [Met] using Derives.manyCons hf (allMet_singleton.1 hv)
  | stmt => exact met_stmtRest h hw
  | stmts =>
      obtain ⟨r, hr, rfl⟩ := Option.map_eq_some_iff.1 h
      obtain ⟨u, v, rfl, hu, hv⟩ := allMet_append.1 hw
      exact .manyCons (met_stmtRest hr hu) (allMet_singleton.1 hv)
  | elseBranch =>
      obtain ⟨rfl, h⟩ := Option.ite_none_right_eq_some.1 h
      cases h
      obtain ⟨vs, ss, rfl, hvs, hss⟩ := met_block hw
      exact .inr ⟨_, .block hvs hss, rfl⟩
  | returned => exact .inr (met_expRest h hw)
  | afterStmtName =>
      simp only [take?] at h
      split at h
      · cases h
        obtain ⟨u, _, rfl, hu, hv⟩ := hw
        obtain ⟨_, rfl, hs⟩ := allMet_token.1 hv
        obtain rfl := allMet_singleton.1 hs
        simpa [Met] using Derives.callStmt hu
      · cases h
        obtain ⟨_, rfl, u, v, rfl, hu, hv⟩ := allMet_token.1 hw
        simpa [Met] using (allMet_singleton.1 hv) _ (hu _ (.field .name))
      · exact met_updateRest h hw .name
  | update => exact fun l hl => met_updateRest h hw hl
  | fields =>
      intro l hl
      obtain ⟨rfl, h⟩ := Option.ite_none_right_eq_some.1 h
      cases h
      obtain ⟨v, rfl, hv⟩ := allMet_token.1 hw
      simpa using (allMet_singleton.1 hv) _ (.field hl)
  | exp => exact met_expRest h hw
  | afterName =>
      simp only [take?] at h
      split at h
      · cases h
        obtain ⟨u, _, rfl, hu, hv⟩ := hw
        obtain ⟨v, rfl, hs⟩ := allMet_token.1 hv
        simpa [Met] using (allMet_singleton.1 hs) _ (.term (.callTerm hu))
      · cases h
        obtain ⟨_, rfl, u, v, rfl, hu, hv⟩ := allMet_token.1 hw
        simpa [Met] using (allMet_singleton.1 hv) _ (hu _ (.field .name))
      · exact met_pathRest h hw .name
  | afterPath => exact fun l hl => met_pathRest h hw hl
  | afterTerm => exact fun e he => met_operatorRest h hw he
  | arguments =>
      obtain ⟨r, hr, rfl⟩ := Option.map_eq_some_iff.1 h
      obtain ⟨u, v, rfl, hu, hv⟩ := allMet_append.1 hw
      have he := met_expRest hr hu
      simpa [Met] using Derives.callSome he (allMet_singleton.1 hv)
  | moreArguments =>
      obtain ⟨rfl, h⟩ := Option.ite_none_right_eq_some.1 h
      cases h
      obtain ⟨e, v, rfl, he, hv⟩ := hw
      exact .manyCons (.afterComma he) (allMet_singleton.1 hv)

theorem met_nil {g : Goal} (h : g.isOptional = true) : g.Met [] := by
  cases g with
  | decls | varDecls | moreFormals | stmts | moreArguments => exact .manyNil
  | formals => exact .noFormals
  | elseBranch | returned => exact .inl rfl
  | fields => exact fun l hl => by simpa using hl
  | afterName => exact .term (.locTerm .name)
  | afterPath => exact fun l hl => by simpa using Derives.term (.locTerm hl)
  | afterTerm => exact fun e he => by simpa using he
  | arguments => exact .callNothing
  | _ => cases h

theorem allMet_of_next {goals rest : List Goal} {k : Kind} {w : List Kind}
    (h : next goals k = some rest) (hw : AllMet rest w) : AllMet goals (k :: w) := by
  induction goals with
  | nil => cases h
  | cons g goals ih =>
      simp only [next] at h
      split at h
      · rename_i r hr
        cases h
        obtain ⟨u, v, rfl, hu, hv⟩ := allMet_append.1 hw
        exact ⟨k :: u, v, rfl, met_of_take? hr hu, hv⟩
      · obtain ⟨hg, h⟩ := Option.ite_none_right_eq_some.1 h
        exact ⟨[], k :: w, rfl, met_nil hg, ih h⟩

/-- Whatever meets the goals that a list of kinds leaves continues it to what meets the goals. -/
theorem allMet_of_after {goals rest : List Goal} {u w : List Kind}
    (h : after goals u = some rest) (hw : AllMet rest w) : AllMet goals (u ++ w) := by
  induction u generalizing goals with
  | nil =>
      cases h
      exact hw
  | cons k u ih =>
      obtain ⟨middle, hk, hu⟩ := Option.bind_eq_some_iff.1 h
      exact allMet_of_next hk (ih hu)

/-! ### No dead ends -/

theorem exists_met (g : Goal) : ∃ w, g.Met w := by
  by_cases h : g.isOptional = true
  · exact ⟨[], met_nil h⟩
  cases g with
  | token kind => exact ⟨[kind], rfl⟩
  | type => exact ⟨_, .int⟩
  | decl => exact ⟨_, .varDecl .structVar⟩
  | afterDeclName => exact ⟨[.symbol .semicolon], fun t ht => .varDecl (.typeVar ht)⟩
  | afterStructName => exact ⟨[.name, .symbol .semicolon], .varDecl .structVar⟩
  | varDecl => exact ⟨_, .structVar⟩
  | stmt => exact ⟨_, .returnNothing⟩
  | afterStmtName => exact ⟨[.symbol .plusPlus, .symbol .semicolon], .increment .name⟩
  | update => exact ⟨[.symbol .plusPlus, .symbol .semicolon], fun l hl => .increment hl⟩
  | exp => exact ⟨_, .term .number⟩
  | _ => exact absurd rfl h

theorem exists_allMet (goals : List Goal) : ∃ w, AllMet goals w := by
  induction goals with
  | nil => exact ⟨[], rfl⟩
  | cons g goals ih =>
      obtain ⟨u, hu⟩ := exists_met g
      obtain ⟨v, hv⟩ := ih
      exact ⟨u ++ v, u, v, rfl, hu, hv⟩

end Goal

end Cmm
