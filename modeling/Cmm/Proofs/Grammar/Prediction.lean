import Cmm.Proofs.Grammar.Goal

/-!
# Every sentence is read

The other half: whatever the grammar derives from a part is taken by the reader, which then has the
goals behind that part.  Where a part can go on, as an expression at an operator, the goals that
it leaves in front are optional.  So the reader takes exactly the sentences, each followed by the
end of the input, and it stops at the first kind that no sentence has at that place.
-/

namespace Cmm

namespace Goal

theorem next_of_take? {g : Goal} {k : Kind} {rest : List Goal} (h : g.take? k = some rest)
    (goals : List Goal) : next (g :: goals) k = some (rest ++ goals) := by
  simp [next, h]

theorem next_drop {g : Goal} {k : Kind} (h : g.take? k = none) (ho : g.isOptional = true)
    (goals : List Goal) : next (g :: goals) k = next goals k := by
  simp [next, h, ho]

theorem next_refuse {g : Goal} {k : Kind} (h : g.take? k = none) (ho : g.isOptional = false)
    (goals : List Goal) : next (g :: goals) k = none := by
  simp [next, h, ho]

theorem next_token_of_ne {k kind : Kind} (h : k ≠ kind) (goals : List Goal) :
    next (.token kind :: goals) k = none := by
  have htake : take? (.token kind) k = none := if_neg h
  exact next_refuse htake rfl goals

theorem after_of_take? {g : Goal} {k : Kind} {rest : List Goal} (h : g.take? k = some rest)
    (goals : List Goal) (w : List Kind) :
    after (g :: goals) (k :: w) = after (rest ++ goals) w := by
  simp [after, next_of_take? h]

theorem after_drop {g : Goal} {k : Kind} (h : g.take? k = none) (ho : g.isOptional = true)
    (goals : List Goal) (w : List Kind) :
    after (g :: goals) (k :: w) = after goals (k :: w) := by
  simp [after, next_drop h ho]

@[simp] theorem after_token (k : Kind) (goals : List Goal) (w : List Kind) :
    after (.token k :: goals) (k :: w) = after goals w := by
  simp [after, next, take?]

def expTails : List (List Goal) := [[.afterTerm], [.afterName], [.fields, .afterPath]]

def stmtTails : List (List Goal) := [[], [.elseBranch]]

theorem after_expTail {tail : List Goal} (h : tail ∈ expTails) {s : Symbol}
    (hs : s = .comma ∨ s = .rightParen ∨ s = .semicolon) (goals : List Goal) (w : List Kind) :
    after (tail ++ goals) (.symbol s :: w) = after goals (.symbol s :: w) := by
  simp only [expTails, List.mem_cons, List.not_mem_nil, or_false] at h
  rcases h with rfl | rfl | rfl <;> rcases hs with rfl | rfl | rfl <;> rfl

theorem after_expTail_operator {tail : List Goal} (h : tail ∈ expTails) (op : BinaryOp)
    (goals : List Goal) (w : List Kind) :
    after (tail ++ goals) (.symbol op.symbol :: w) = after (.exp :: goals) w := by
  simp only [expTails, List.mem_cons, List.not_mem_nil, or_false] at h
  rcases h with rfl | rfl | rfl <;> cases op <;> rfl

theorem after_stmtTail {tail : List Goal} (h : tail ∈ stmtTails) {k : Kind}
    (hk : k ≠ .keyword .elseWord) (goals : List Goal) (w : List Kind) :
    after (tail ++ goals) (k :: w) = after goals (k :: w) := by
  simp only [stmtTails, List.mem_cons, List.not_mem_nil, or_false] at h
  rcases h with rfl | rfl
  · rfl
  · exact after_drop (by simp [take?, hk]) rfl goals w

def Starts (rest? : Kind → Option (List Goal)) (w : List Kind) : Prop :=
  ∃ k v, w = k :: v ∧ (rest? k).isSome

/-- What reading the kinds of a part does to the goals. -/
def Taken : Part → List Kind → Prop
  | .program, w | .decl, w | .fnDecl, w | .structDecl, w | .many .decl, w =>
    ∀ goals, after (.decls :: goals) w = some (.decls :: goals)
  | .varDecl, w =>
    (∀ goals, after (.decls :: goals) w = some (.decls :: goals)) ∧
      (∀ goals, after (.varDecls :: goals) w = some (.varDecls :: goals)) ∧
      ∀ goals, after (.varDecl :: goals) w = some goals
  | .many .varDecl, w => ∀ goals, after (.varDecls :: goals) w = some (.varDecls :: goals)
  | .formals, w => ∃ v, w = .symbol .leftParen :: v ∧
    ∀ goals, after (.formals :: sign .rightParen :: goals) v = some goals
  | .formalDecl, w => ∃ t : Primitive, w = [.keyword t.keyword, .name]
  | .afterComma .formalDecl, w | .many (.afterComma .formalDecl), w =>
    ∀ goals, after (.moreFormals :: goals) w = some (.moreFormals :: goals)
  | .type, w => ∃ t : Primitive, w = [.keyword t.keyword]
  | .fnBody, w | .block, w => ∀ goals, after (block ++ goals) w = some goals
  | .stmt, w => Starts stmtRest? w ∧
    ∃ tail ∈ stmtTails, ∀ goals, after (.stmts :: goals) w = some (tail ++ .stmts :: goals)
  | .many .stmt, w => (w = [] ∨ Starts stmtRest? w) ∧
    ∃ tail ∈ stmtTails, ∀ goals, after (.stmts :: goals) w = some (tail ++ .stmts :: goals)
  | .exp, w | .term, w => Starts expRest? w ∧
    ∃ tail ∈ expTails, ∀ goals, after (.exp :: goals) w = some (tail ++ goals)
  | .call, w => ∃ v, w = .name :: .symbol .leftParen :: v ∧
    ∀ goals, after (.arguments :: sign .rightParen :: goals) v = some goals
  | .afterComma .exp, w => ∃ v, w = .symbol .comma :: v ∧ ∃ tail ∈ expTails,
    ∀ goals, after (.moreArguments :: goals) w = some (tail ++ .moreArguments :: goals)
  | .many (.afterComma .exp), w => (w = [] ∨ ∃ v, w = .symbol .comma :: v) ∧
    ∃ tail ∈ [] :: expTails,
      ∀ goals, after (.moreArguments :: goals) w = some (tail ++ .moreArguments :: goals)
  | .loc, w => w = [.name] ∨ ∃ v, w = .name :: .symbol .dot :: .name :: v ∧
    ∀ goals, after (.fields :: goals) v = some (.fields :: goals)
  | _, _ => True

theorem taken_manyCons {p : Part} {u v : List Kind} (hu : Taken p u) (hv : Taken (.many p) v) :
    Taken (.many p) (u ++ v) := by
  cases p with
  | decl => exact fun goals => by rw [after_append_of (hu goals), hv goals]
  | varDecl => exact fun goals => by rw [after_append_of (hu.2.1 goals), hv goals]
  | stmt =>
      obtain ⟨hstart, tail, htail, hu⟩ := hu
      obtain ⟨hv, tail', htail', hv'⟩ := hv
      obtain ⟨k, rest, rfl, hk⟩ := hstart
      refine ⟨.inr ⟨k, rest ++ v, rfl, hk⟩, ?_⟩
      rcases hv with rfl | ⟨k', rest', rfl, hk'⟩
      · exact ⟨tail, htail, by simpa using hu⟩
      · refine ⟨tail', htail', fun goals => ?_⟩
        have hne : k' ≠ .keyword .elseWord := by
          rintro rfl
          cases hk'
        rw [after_append_of (hu goals), after_stmtTail htail hne, hv' goals]
  | afterComma p =>
      cases p with
      | formalDecl => exact fun goals => by rw [after_append_of (hu goals), hv goals]
      | exp =>
          obtain ⟨w, rfl, tail, htail, hu⟩ := hu
          obtain ⟨hv, tail', htail', hv'⟩ := hv
          refine ⟨.inr ⟨w ++ v, rfl⟩, ?_⟩
          rcases hv with rfl | ⟨rest, rfl⟩
          · exact ⟨tail, .tail _ htail, by simpa using hu⟩
          · refine ⟨tail', htail', fun goals => ?_⟩
            rw [after_append_of (hu goals), after_expTail htail (.inl rfl), hv' goals]
      | _ => trivial
  | _ => trivial

theorem taken_block {vs ss : List Kind} (hvs : Taken (.many .varDecl) vs)
    (hss : Taken (.many .stmt) ss) (goals : List Goal) :
    after (block ++ goals) (.symbol .leftCurly :: (vs ++ ss ++ [.symbol .rightCurly])) =
      some goals := by
  obtain ⟨hstart, tail, htail, hss⟩ := hss
  have hvs' := hvs (.stmts :: sign .rightCurly :: goals)
  simp only [block, List.cons_append, after_token, List.nil_append, List.append_assoc]
  rw [after_append_of hvs']
  rcases hstart with rfl | ⟨k, v, rfl, hk⟩
  · rfl
  · have hdrop : varDeclRest? k = none := by
      unfold stmtRest? at hk
      split at hk <;> simp_all [varDeclRest?, Primitive.ofKind?]
    rw [List.cons_append, after_drop (by simp [take?, hdrop]) rfl, ← List.cons_append,
      after_append_of (hss _), after_stmtTail htail (by simp)]
    rfl

theorem after_arguments {w : List Kind} (h : Starts expRest? w) (goals : List Goal) :
    after (.arguments :: goals) w = after (.exp :: .moreArguments :: goals) w := by
  obtain ⟨k, v, rfl, hk⟩ := h
  obtain ⟨r, hr⟩ := Option.isSome_iff_exists.1 hk
  rw [after_of_take? (show take? .exp k = some r from hr),
    after_of_take? (show take? .arguments k = some (r ++ [.moreArguments]) by simp [take?, hr]),
    List.append_assoc]
  rfl

theorem after_returned {w : List Kind} (h : Starts expRest? w) (goals : List Goal) :
    after (.returned :: goals) w = after (.exp :: goals) w := by
  obtain ⟨k, v, rfl, hk⟩ := h
  obtain ⟨r, hr⟩ := Option.isSome_iff_exists.1 hk
  rw [after_of_take? (show take? .exp k = some r from hr),
    after_of_take? (show take? .returned k = some r from hr)]

theorem starts_exp_loc {l : List Kind} (h : Taken .loc l) (v : List Kind) :
    Starts expRest? (l ++ v) := by
  rcases h with rfl | ⟨w, rfl, -⟩ <;> exact ⟨_, _, rfl, rfl⟩

theorem starts_stmt_loc {l : List Kind} (h : Taken .loc l) (v : List Kind) :
    Starts stmtRest? (l ++ v) := by
  rcases h with rfl | ⟨w, rfl, -⟩ <;> exact ⟨_, _, rfl, rfl⟩

theorem after_exp_loc {l : List Kind} (h : Taken .loc l) :
    ∃ tail, (tail = [.afterName] ∨ tail = [.fields, .afterPath]) ∧
      ∀ goals, after (.exp :: goals) l = some (tail ++ goals) := by
  rcases h with rfl | ⟨v, rfl, hv⟩
  · exact ⟨_, .inl rfl, fun goals => rfl⟩
  · exact ⟨_, .inr rfl, fun goals => hv _⟩

theorem after_condition {e b : List Kind} (he : Taken .exp e) (hb : Taken .block b)
    (goals : List Goal) (w : List Kind) :
    after ([sign .leftParen, .exp, sign .rightParen] ++ block ++ goals)
        (.symbol .leftParen :: (e ++ .symbol .rightParen :: (b ++ w))) = after goals w := by
  obtain ⟨-, tail, htail, he⟩ := he
  have he := after_append_of (he (sign .rightParen :: (block ++ goals)))
    (.symbol .rightParen :: (b ++ w))
  simp only [List.cons_append, List.nil_append, after_token]
  rw [he, after_expTail htail (by simp), after_token, after_append_of (hb goals)]

theorem after_stmts_loc {l : List Kind} (h : Taken .loc l) {k : Kind} {rest : List Goal}
    (hk : updateRest? k = some rest) (goals : List Goal) (w : List Kind) :
    after (.stmts :: goals) (l ++ k :: w) = after (rest ++ .stmts :: goals) w := by
  have hupdate : after (.update :: .stmts :: goals) (k :: w) = after (rest ++ .stmts :: goals) w :=
    after_of_take? (show take? .update k = some rest from hk) _ _
  rcases h with rfl | ⟨v, rfl, hv⟩
  · rw [← hupdate]
    unfold updateRest? at hk
    split at hk <;> cases hk <;> rfl
  · have hfields := after_append_of (hv (.update :: .stmts :: goals)) (k :: w)
    have hdrop : take? .fields k = none := by
      unfold updateRest? at hk
      split at hk <;> first | rfl | cases hk
    rw [after_drop hdrop rfl, hupdate] at hfields
    rw [← hfields]
    rfl

theorem taken_of_derives {p : Part} {w : List Kind} (h : Derives p w) : Taken p w := by
  induction h with
  | @manyNil p =>
      cases p with
      | decl | varDecl => exact fun goals => rfl
      | stmt => exact ⟨.inl rfl, [], by simp [stmtTails], fun goals => rfl⟩
      | afterComma p =>
          cases p with
          | formalDecl => exact fun goals => rfl
          | exp => exact ⟨.inl rfl, [], by simp, fun goals => rfl⟩
          | _ => trivial
      | _ => trivial
  | manyCons _ _ ihu ihv => exact taken_manyCons ihu ihv
  | @afterComma p u _ ih =>
      cases p with
      | formalDecl =>
          obtain ⟨t, rfl⟩ := ih
          exact fun goals => by cases t <;> rfl
      | exp =>
          obtain ⟨-, tail, htail, hu⟩ := ih
          exact ⟨u, rfl, tail, htail, fun goals => hu _⟩
      | _ => trivial
  | program _ ih => exact ih
  | varDecl _ ih => exact ih.1
  | fnDecl _ ih | structDecl _ ih => exact ih
  | typeVar _ ih =>
      obtain ⟨t, rfl⟩ := ih
      cases t <;> exact ⟨fun _ => rfl, fun _ => rfl, fun _ => rfl⟩
  | structVar => exact ⟨fun _ => rfl, fun _ => rfl, fun _ => rfl⟩
  | @function t f b _ _ _ iht ihf ihb =>
      obtain ⟨t, rfl⟩ := iht
      obtain ⟨v, rfl, hv⟩ := ihf
      intro goals
      calc
        after (.decls :: goals) _ = after (.formals :: sign .rightParen ::
            (block ++ .decls :: goals)) (v ++ b) := by
          cases t <;> rfl
        _ = some (.decls :: goals) := by
          rw [after_append_of (hv _), ihb]
  | @struct v vs _ _ ihv ihvs =>
      intro goals
      have hv := after_append_of (ihv.2.2 (.varDecls :: sign .rightCurly :: sign .semicolon ::
        .decls :: goals))
      have hvs := after_append_of (ihvs (sign .rightCurly :: sign .semicolon :: .decls :: goals))
      calc
        after (.decls :: goals) _ = after (.varDecl :: .varDecls :: sign .rightCurly ::
            sign .semicolon :: .decls :: goals)
              (v ++ vs ++ [.symbol .rightCurly, .symbol .semicolon]) := rfl
        _ = some (.decls :: goals) := by
          rw [List.append_assoc, hv, hvs]
          rfl
  | noFormals => exact ⟨_, rfl, fun goals => rfl⟩
  | @someFormals f fs _ _ ihf ihfs =>
      obtain ⟨t, rfl⟩ := ihf
      refine ⟨_, rfl, fun goals => ?_⟩
      have hfs := after_append_of (ihfs (sign .rightParen :: goals)) [.symbol .rightParen]
      calc
        after (.formals :: sign .rightParen :: goals) _ =
            after (.moreFormals :: sign .rightParen :: goals) (fs ++ [.symbol .rightParen]) := by
          cases t <;> rfl
        _ = some goals := by
          rw [hfs]
          rfl
  | formalDecl _ ih =>
      obtain ⟨t, rfl⟩ := ih
      exact ⟨t, rfl⟩
  | fnBody _ _ ihvs ihss | block _ _ ihvs ihss => exact taken_block ihvs ihss
  | int => exact ⟨.int, rfl⟩
  | bool => exact ⟨.bool, rfl⟩
  | void => exact ⟨.void, rfl⟩
  | assignment _ _ ihl ihe =>
      obtain ⟨-, tail, htail, he⟩ := ihe
      refine ⟨starts_stmt_loc ihl _, [], by simp [stmtTails], fun goals => ?_⟩
      rw [after_stmts_loc ihl rfl]
      rw [show [exp, sign .semicolon] ++ .stmts :: goals =
        .exp :: sign .semicolon :: .stmts :: goals from rfl]
      rw [after_append_of (he _), after_expTail htail (by simp)]
      rfl
  | increment _ ih | decrement _ ih =>
      refine ⟨starts_stmt_loc ih _, [], by simp [stmtTails], fun goals => ?_⟩
      rw [after_stmts_loc ih rfl]
      rfl
  | @read l _ ih =>
      refine ⟨⟨_, _, rfl, rfl⟩, [], by simp [stmtTails], fun goals => ?_⟩
      rcases ih with rfl | ⟨v, rfl, hv⟩
      · rfl
      · have hv := after_append_of (hv (sign .semicolon :: .stmts :: goals))
          [.symbol .semicolon]
        exact hv.trans rfl
  | @write e _ ih =>
      obtain ⟨-, tail, htail, he⟩ := ih
      refine ⟨⟨_, _, rfl, rfl⟩, [], by simp [stmtTails], fun goals => ?_⟩
      have he := after_append_of (he (sign .semicolon :: .stmts :: goals)) [.symbol .semicolon]
      rw [after_expTail htail (by simp)] at he
      exact he.trans rfl
  | ifThen _ _ ihe ihb =>
      refine ⟨⟨_, _, rfl, rfl⟩, [.elseBranch], by simp [stmtTails], fun goals => ?_⟩
      have hc := after_condition ihe ihb (.elseBranch :: .stmts :: goals) []
      rw [List.append_nil] at hc
      exact hc
  | @ifElse e b d _ _ _ ihe ihb ihd =>
      refine ⟨⟨_, _, rfl, rfl⟩, [], by simp [stmtTails], fun goals => ?_⟩
      have hc := after_condition ihe ihb (.elseBranch :: .stmts :: goals)
        (.keyword .elseWord :: d)
      exact hc.trans (ihd (.stmts :: goals))
  | whileLoop _ _ ihe ihb | repeatLoop _ _ ihe ihb =>
      refine ⟨⟨_, _, rfl, rfl⟩, [], by simp [stmtTails], fun goals => ?_⟩
      have hc := after_condition ihe ihb (.stmts :: goals) []
      rw [List.append_nil] at hc
      exact hc
  | returnNothing => exact ⟨⟨_, _, rfl, rfl⟩, [], by simp [stmtTails], fun goals => rfl⟩
  | @returnValue e _ ih =>
      obtain ⟨hstart, tail, htail, he⟩ := ih
      refine ⟨⟨_, _, rfl, rfl⟩, [], by simp [stmtTails], fun goals => ?_⟩
      have he := after_append_of
        ((after_returned hstart _).trans (he (sign .semicolon :: .stmts :: goals)))
        [.symbol .semicolon]
      rw [after_expTail htail (by simp)] at he
      exact he.trans rfl
  | callStmt _ ih =>
      obtain ⟨v, rfl, hv⟩ := ih
      refine ⟨⟨_, _, rfl, rfl⟩, [], by simp [stmtTails], fun goals => ?_⟩
      have hv := after_append_of (hv (sign .semicolon :: .stmts :: goals)) [.symbol .semicolon]
      exact hv.trans rfl
  | @assign l e _ _ ihl ihe =>
      obtain ⟨-, tail, htail, he⟩ := ihe
      refine ⟨starts_exp_loc ihl _, tail, htail, fun goals => ?_⟩
      obtain ⟨front, hfront, hl⟩ := after_exp_loc ihl
      rw [after_append_of (hl goals), ← he goals]
      rcases hfront with rfl | rfl <;> rfl
  | binary op _ _ ihe ihf =>
      obtain ⟨⟨k, v, rfl, hk⟩, tail, htail, he⟩ := ihe
      obtain ⟨-, tail', htail', hf⟩ := ihf
      refine ⟨⟨k, _, rfl, hk⟩, tail', htail', fun goals => ?_⟩
      rw [after_append_of (he goals), after_expTail_operator htail, hf goals]
  | not _ ih | minus _ ih =>
      obtain ⟨-, tail, htail, he⟩ := ih
      exact ⟨⟨_, _, rfl, rfl⟩, tail, htail, fun goals => he goals⟩
  | term _ ih => exact ih
  | locTerm _ ih =>
      obtain ⟨tail, htail, hl⟩ := after_exp_loc ih
      refine ⟨?_, tail, ?_, hl⟩
      · simpa using starts_exp_loc ih []
      · rcases htail with rfl | rfl <;> simp [expTails]
  | number | string | trueWord | falseWord =>
      exact ⟨⟨_, _, rfl, rfl⟩, [.afterTerm], by simp [expTails], fun goals => rfl⟩
  | @parens e _ ih =>
      obtain ⟨-, tail, htail, he⟩ := ih
      refine ⟨⟨_, _, rfl, rfl⟩, [.afterTerm], by simp [expTails], fun goals => ?_⟩
      have he := after_append_of (he (sign .rightParen :: .afterTerm :: goals))
        [.symbol .rightParen]
      rw [after_expTail htail (by simp)] at he
      exact he.trans rfl
  | callTerm _ ih =>
      obtain ⟨v, rfl, hv⟩ := ih
      exact ⟨⟨_, _, rfl, rfl⟩, [.afterTerm], by simp [expTails], fun goals => hv _⟩
  | callNothing => exact ⟨_, rfl, fun goals => rfl⟩
  | @callSome e es _ _ ihe ihes =>
      obtain ⟨hstart, tail, htail, he⟩ := ihe
      obtain ⟨hes, tail', htail', hes'⟩ := ihes
      refine ⟨_, rfl, fun goals => ?_⟩
      have hfirst := after_append_of
        ((after_arguments hstart _).trans (he (.moreArguments :: sign .rightParen :: goals)))
        (es ++ [.symbol .rightParen])
      rw [List.append_assoc, hfirst]
      rcases hes with rfl | ⟨v, rfl⟩
      · rw [List.nil_append, after_expTail htail (by simp)]
        rfl
      · rw [List.cons_append, after_expTail htail (by simp), ← List.cons_append,
          after_append_of (hes' _)]
        rcases List.mem_cons.1 htail' with rfl | htail'
        · rfl
        · rw [after_expTail htail' (by simp)]
          rfl
  | name => exact .inl rfl
  | field _ ih =>
      refine .inr ?_
      rcases ih with rfl | ⟨v, rfl, hv⟩
      · exact ⟨[], rfl, fun goals => rfl⟩
      · refine ⟨v ++ [.symbol .dot, .name], rfl, fun goals => ?_⟩
        rw [after_append_of (hv goals)]
        rfl

/-! ## Where reading stops -/

/-- What is left of a list of kinds when all goals are met, when no goal takes the next kind, or
when the list ends. -/
def leftover : List Goal → List Kind → List Kind
  | [], w => w
  | _ :: _, [] => []
  | g :: goals, k :: w =>
    match next (g :: goals) k with
    | some rest => leftover rest w
    | none => k :: w

@[simp] theorem leftover_nil (w : List Kind) : leftover [] w = w := by
  cases w <;> rfl

@[simp] theorem leftover_end (goals : List Goal) : leftover goals [] = [] := by
  cases goals <;> rfl

theorem leftover_of_next {goals rest : List Goal} {k : Kind} (h : next goals k = some rest)
    (w : List Kind) : leftover goals (k :: w) = leftover rest w := by
  cases goals with
  | nil => cases h
  | cons g goals => simp [leftover, h]

theorem leftover_of_next_eq_none {goals : List Goal} {k : Kind} (h : next goals k = none)
    (w : List Kind) : leftover goals (k :: w) = k :: w := by
  cases goals with
  | nil => rfl
  | cons g goals => simp [leftover, h]

theorem leftover_congr {goals goals' : List Goal} {k : Kind} (h : next goals k = next goals' k)
    (w : List Kind) : leftover goals (k :: w) = leftover goals' (k :: w) := by
  cases hrest : next goals' k with
  | none => rw [leftover_of_next_eq_none hrest, leftover_of_next_eq_none (h.trans hrest)]
  | some rest => rw [leftover_of_next hrest, leftover_of_next (h.trans hrest)]

/-- The kinds that are not left were taken, and the first one that is left cannot be. -/
theorem exists_of_leftover (goals : List Goal) (w : List Kind) :
    ∃ u rest, w = u ++ leftover goals w ∧ after goals u = some rest ∧
      ∀ k v, leftover goals w = k :: v → next rest k = none := by
  induction w generalizing goals with
  | nil => exact ⟨[], goals, by cases goals <;> rfl, rfl, by cases goals <;> simp [leftover]⟩
  | cons k w ih =>
      cases hk : next goals k with
      | none =>
          rw [leftover_of_next_eq_none hk]
          refine ⟨[], goals, rfl, rfl, ?_⟩
          rintro _ _ ⟨⟩
          exact hk
      | some middle =>
          rw [leftover_of_next hk]
          obtain ⟨u, rest, hw, hu, hstop⟩ := ih middle
          exact ⟨k :: u, rest, by rw [List.cons_append, ← hw], by simp [after_cons, hk, hu],
            hstop⟩

/-! ## Sentences -/

def start : List Goal := [.decls, .token .endOfInput]

/-- The reader meets all its goals with every sentence. -/
theorem after_start {w : List Kind} (h : Derives .program w) :
    after start (w ++ [.endOfInput]) = some [] := by
  have hw : Taken .program w := taken_of_derives h
  rw [start, after_append_of (hw [.token .endOfInput])]
  rfl

theorem allMet_start {w : List Kind} :
    AllMet start w ↔ ∃ v, Derives .program v ∧ w = v ++ [.endOfInput] := by
  constructor
  · rintro ⟨v, u, rfl, hv, hu⟩
    obtain rfl := allMet_singleton.1 hu
    exact ⟨v, .program hv, rfl⟩
  · rintro ⟨v, hv, rfl⟩
    cases hv with
    | program hv => exact ⟨v, _, rfl, hv, allMet_singleton.2 rfl⟩

/-- The kinds that are taken are the beginnings of sentences. -/
theorem exists_sentence {w : List Kind} {goals : List Goal} (h : after start w = some goals) :
    ∃ v, Derives .program v ∧ w <+: v ++ [.endOfInput] := by
  obtain ⟨u, hu⟩ := exists_allMet goals
  obtain ⟨v, hv, hw⟩ := allMet_start.1 (allMet_of_after h hu)
  exact ⟨v, hv, u, hw⟩

/-- A kind that is not taken does not stand in a sentence at its place. -/
theorem not_sentence {w : List Kind} (h : after start w = none) :
    ¬∃ v, Derives .program v ∧ w <+: v ++ [.endOfInput] := by
  rintro ⟨v, hv, u, hu⟩
  have hall := after_start hv
  rw [← hu, after_append, h] at hall
  cases hall

end Goal

end Cmm
